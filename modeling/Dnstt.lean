import Dnstt.Dns.Message
import Dnstt.Dns.WireFormat
import Dnstt.Codec.Base32
import Dnstt.Codec.Framing
import Dnstt.Carrier.Basic
import Dnstt.Carrier.SendLoop
import Dnstt.Carrier.Select
import Dnstt.Carrier.Downstream
import Dnstt.Carrier.RecvLoop
import Dnstt.Carrier.Loop
import Dnstt.Carrier.SelectLoop
import Dnstt.Noise.ResponseFor
import Dnstt.Noise.Loops
import Dnstt.Plain.ResponseFor
import Dnstt.Plain.Loops
import Dnstt.Server.Upstream
import Dnstt.Server.Main
