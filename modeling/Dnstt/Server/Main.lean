import Mathlib

/-!
# `generateKeypair`, `run` and `main`

The parts of the two servers around their loops. The Noise server's `-gen-key` mode runs
`generateKeypair`: make a keypair, write each key to its file if a name is given and else print
it in hex. Files are removed by a deferred function when an error is returned after they were
created, so that no partially written file is left behind. In server mode both servers check
their arguments and call `run`, which opens the KCP listener, starts `acceptSessions`, opens the
UDP socket and runs `loop` in a goroutine when an address is given, and waits for that
goroutine; `main` ends with `log.Fatal` on an error of `run` and otherwise returns.

Every call to the operating system or to the `noise` package is modelled by its outcome, which
the environment chooses for each call (`KeygenEnv`, `RunEnv`, `MainEnv`); the files are a map
from names to contents; `noise.WriteKey` is a parameter, the bytes it writes for a key; the UDP
loop is summed up by whether `recvLoop` ever returns.

* `generateKeypair_failure`: when `generateKeypair` returns an error, nothing is printed on
  stdout. Every file it created, which is on `toDelete` when it returns, has been removed or
  stderr says it could not be: a file that was there before under that name, truncated by
  `os.Create`, is gone and not restored. Every other file is as it was.
-/

namespace Dnstt

/-- An error of a call of the server, told apart by its value. -/
structure OsError where
  id : Nat
deriving DecidableEq

namespace Noise

/-! ## `generateKeypair` -/

/-- The two files `generateKeypair` may write. -/
inductive KeyFile
  | priv
  | pub
deriving DecidableEq

/-- What each call `generateKeypair` can make returns. -/
structure KeygenEnv where
  /-- `noise.GenerateKeypair()`: the private and public key, or an error. -/
  generate : Except OsError (List UInt8 × List UInt8)
  /-- `os.Create` of the file for a key. -/
  create : KeyFile → Option OsError
  /-- `noise.WriteKey` to the file for a key: an error, after so many bytes went out. -/
  write : KeyFile → Option (Nat × OsError)
  /-- `f.Close()` of the file for a key. -/
  close : KeyFile → Option OsError
  /-- `os.Remove` in the deferred function, of the file for a key. -/
  remove : KeyFile → Option OsError

/-- A line printed by `generateKeypair`. -/
inductive KeygenLine
  /-- `privkey written to %s` -/
  | privWritten (name : String)
  /-- `privkey %x` -/
  | privHex (key : List UInt8)
  /-- `pubkey  written to %s` -/
  | pubWritten (name : String)
  /-- `pubkey  %x` -/
  | pubHex (key : List UInt8)
  /-- `deleting partially written file %s` -/
  | deleting (name : String)
  /-- `cannot remove %s: %v` -/
  | cannotRemove (name : String) (e : OsError)
deriving DecidableEq

structure KeygenState where
  files : String → Option (List UInt8)
  /-- The files to remove if an error is returned, with the key each is for. -/
  toDelete : List (KeyFile × String)
  stdout : List KeygenLine
  stderr : List KeygenLine

variable (encodeKey : List UInt8 → List UInt8) (env : KeygenEnv)

/-- Saving one key: `os.Create`, which truncates the file, then `noise.WriteKey` and
`f.Close()`, whose error counts only when the write had none. The file goes on `toDelete` once
created. -/
def saveKey (k : KeyFile) (name : String) (key : List UInt8) (s : KeygenState) :
    KeygenState × Option OsError :=
  match env.create k with
  | some e => (s, some e)
  | none =>
    let s := { s with toDelete := s.toDelete ++ [(k, name)] }
    match env.write k with
    | some (n, e) =>
      ({ s with files := Function.update s.files name (some ((encodeKey key).take n)) }, some e)
    | none => ({ s with files := Function.update s.files name (some (encodeKey key)) }, env.close k)

/-- `if name != ""`, after no error so far: save the key. -/
def saveIf (k : KeyFile) (name : String) (key : List UInt8) :
    KeygenState × Option OsError → KeygenState × Option OsError
  | (s, none) => if name ≠ "" then saveKey encodeKey env k name key s else (s, none)
  | r => r

/-- The body of `generateKeypair`, up to its return: on success `toDelete` is emptied and each
key's line printed. -/
def keygenBody (privName pubName : String) (s : KeygenState) : KeygenState × Option OsError :=
  match env.generate with
  | .error e => (s, some e)
  | .ok (priv, pub) =>
    match saveIf encodeKey env .pub pubName pub (saveIf encodeKey env .priv privName priv (s, none)) with
    | (s, none) =>
      ({ s with
        toDelete := []
        stdout := s.stdout ++
          [if privName ≠ "" then .privWritten privName else .privHex priv,
           if pubName ≠ "" then .pubWritten pubName else .pubHex pub] }, none)
    | r => r

/-- The deferred function, over `toDelete`: remove each file, and on failure print it and make
the error the result if there was none. -/
def removeAll : List (KeyFile × String) → KeygenState × Option OsError → KeygenState × Option OsError
  | [], r => r
  | (k, name) :: rest, (s, err) =>
    let s := { s with stderr := s.stderr ++ [KeygenLine.deleting name] }
    removeAll rest <|
      match env.remove k with
      | some e => ({ s with stderr := s.stderr ++ [KeygenLine.cannotRemove name e] }, err <|> some e)
      | none => ({ s with files := Function.update s.files name none }, err)

/-- `generateKeypair(privkeyFilename, pubkeyFilename)` on the files `files`: the files and what
was printed when it returns, and the error it returns. -/
def generateKeypair (privName pubName : String) (files : String → Option (List UInt8)) :
    KeygenState × Option OsError :=
  let r := keygenBody encodeKey env privName pubName ⟨files, [], [], []⟩
  removeAll env r.1.toDelete r

/-- Every file that differs from `files` is on `toDelete`. -/
def Tracked (files : String → Option (List UInt8)) (s : KeygenState) : Prop :=
  ∀ n, s.files n ≠ files n → ∃ k, (k, n) ∈ s.toDelete

/-- A file removed, or reported as one that could not be removed. -/
def Gone (n : String) (s : KeygenState) : Prop :=
  s.files n = none ∨ ∃ e, .cannotRemove n e ∈ s.stderr

section Saving

variable {encodeKey env}

theorem saveKey_out (k : KeyFile) (name : String) (key : List UInt8) (s : KeygenState) :
    (saveKey encodeKey env k name key s).1.stdout = s.stdout ∧
      (saveKey encodeKey env k name key s).1.stderr = s.stderr := by
  unfold saveKey
  rcases env.create k with _ | e
  · rcases env.write k with _ | ⟨n, e⟩ <;> exact ⟨rfl, rfl⟩
  · exact ⟨rfl, rfl⟩

theorem saveKey_tracked {files : String → Option (List UInt8)} {s : KeygenState}
    (hs : Tracked files s) (k : KeyFile) (name : String) (key : List UInt8) :
    Tracked files (saveKey encodeKey env k name key s).1 := by
  have hupd : ∀ c, Tracked files
      { s with toDelete := s.toDelete ++ [(k, name)], files := Function.update s.files name c } :=
    fun c n hn => by
      by_cases h : n = name
      · exact ⟨k, List.mem_append_right _ (h ▸ List.mem_singleton_self _)⟩
      · obtain ⟨k', hk'⟩ := hs n (by simpa [Function.update_noteq h] using hn)
        exact ⟨k', List.mem_append_left _ hk'⟩
  unfold saveKey
  rcases env.create k with _ | e
  · rcases env.write k with _ | ⟨n, e⟩ <;> exact hupd _
  · exact hs

end Saving

theorem saveIf_frame {files : String → Option (List UInt8)} (k : KeyFile) (name : String)
    (key : List UInt8) {r : KeygenState × Option OsError} (hr : Tracked files r.1) :
    Tracked files (saveIf encodeKey env k name key r).1 ∧
      (saveIf encodeKey env k name key r).1.stdout = r.1.stdout ∧
      (saveIf encodeKey env k name key r).1.stderr = r.1.stderr := by
  rcases r with ⟨s, _ | e⟩
  · simp only [saveIf]
    split_ifs
    · exact ⟨saveKey_tracked hr _ _ _, saveKey_out _ _ _ _⟩
    · exact ⟨hr, rfl, rfl⟩
  · exact ⟨hr, rfl, rfl⟩

section Body

variable {encodeKey env} {privName pubName : String} {s : KeygenState}

/-- Returning an error, the body printed nothing and left every file it changed on `toDelete`. -/
theorem keygenBody_of_some {files : String → Option (List UInt8)} (hs : Tracked files s)
    {e : OsError} (h : (keygenBody encodeKey env privName pubName s).2 = some e) :
    Tracked files (keygenBody encodeKey env privName pubName s).1 ∧
      (keygenBody encodeKey env privName pubName s).1.stdout = s.stdout ∧
      (keygenBody encodeKey env privName pubName s).1.stderr = s.stderr := by
  unfold keygenBody at h ⊢
  revert h
  rcases env.generate with e | ⟨priv, pub⟩
  · exact fun _ => ⟨hs, rfl, rfl⟩
  · have h₁ := saveIf_frame encodeKey env .priv privName priv (r := (s, none)) hs
    have h₂ := saveIf_frame encodeKey env .pub pubName pub h₁.1
    dsimp only
    split
    · exact nofun
    · exact fun _ => ⟨h₂.1, h₂.2.1.trans h₁.2.1, h₂.2.2.trans h₁.2.2⟩

/-- Returning no error, the body empties `toDelete`. -/
theorem keygenBody_toDelete_of_none (h : (keygenBody encodeKey env privName pubName s).2 = none) :
    (keygenBody encodeKey env privName pubName s).1.toDelete = [] := by
  unfold keygenBody at h ⊢
  revert h
  rcases env.generate with e | ⟨priv, pub⟩
  · exact nofun
  · dsimp only
    rcases saveIf encodeKey env .pub pubName pub (saveIf encodeKey env .priv privName priv (s, none))
      with ⟨s', _ | e'⟩
    · exact fun _ => rfl
    · exact nofun

end Body

section Cleanup

variable {env}

theorem removeAll_stdout (l : List (KeyFile × String)) (r : KeygenState × Option OsError) :
    (removeAll env l r).1.stdout = r.1.stdout := by
  induction l generalizing r with
  | nil => rfl
  | cons x l ih =>
    simp only [removeAll]
    split <;> exact ih _

/-- The deferred function changes only the files on its list. -/
theorem removeAll_files {n : String} :
    ∀ (l : List (KeyFile × String)), (∀ k, (k, n) ∉ l) → ∀ r : KeygenState × Option OsError,
      (removeAll env l r).1.files n = r.1.files n
  | [], _, _ => rfl
  | (k, name) :: l, hn, (s, err) => by
    have hne : n ≠ name := fun h => hn k (h ▸ List.mem_cons_self _ _)
    simp only [removeAll]
    rw [removeAll_files l fun k' h => hn k' (List.mem_cons_of_mem _ h)]
    split
    · rfl
    · exact Function.update_noteq hne _ _

/-- A file removed or reported stays so. -/
theorem removeAll_keeps_gone {n : String} :
    ∀ (l : List (KeyFile × String)) (r : KeygenState × Option OsError),
      Gone n r.1 → Gone n (removeAll env l r).1
  | [], _, h => h
  | (k, name) :: l, (s, err), h => by
    change Gone n s at h
    simp only [removeAll]
    apply removeAll_keeps_gone l
    split
    · rcases h with h | ⟨e, he⟩
      · exact .inl h
      · exact .inr ⟨e, by simp [he]⟩
    · by_cases hn : n = name
      · exact .inl (by rw [hn]; exact Function.update_same _ _ _)
      · rcases h with h | ⟨e, he⟩
        · exact .inl ((Function.update_noteq hn _ _).trans h)
        · exact .inr ⟨e, by simp [he]⟩

/-- The deferred function removes each file on its list, or reports that it cannot. -/
theorem removeAll_gone {n : String} {k : KeyFile} :
    ∀ (l : List (KeyFile × String)), (k, n) ∈ l → ∀ r : KeygenState × Option OsError,
      Gone n (removeAll env l r).1
  | [], h, _ => absurd h (List.not_mem_nil _)
  | (k', name) :: l, h, (s, err) => by
    simp only [removeAll]
    rcases List.mem_cons.mp h with h | h
    · obtain ⟨rfl, rfl⟩ := Prod.mk.inj h
      apply removeAll_keeps_gone
      split
      · next _ e _ => exact .inr ⟨e, by simp⟩
      · exact .inl (Function.update_same _ _ _)
    · exact removeAll_gone l h _

end Cleanup

section Results

variable {encodeKey env} {privName pubName : String} {files : String → Option (List UInt8)}

/-- When the body returns no error, the deferred function finds `toDelete` empty. -/
theorem generateKeypair_eq_body
    (hb : (keygenBody encodeKey env privName pubName ⟨files, [], [], []⟩).2 = none) :
    generateKeypair encodeKey env privName pubName files =
      keygenBody encodeKey env privName pubName ⟨files, [], [], []⟩ := by
  unfold generateKeypair
  dsimp only
  rw [keygenBody_toDelete_of_none hb]
  rfl

/-- Every call succeeds, with a file named for each key. -/
def okEnv : KeygenEnv := ⟨.ok ([1], [2]), fun _ => none, fun _ => none, fun _ => none, fun _ => none⟩

/-- Every call succeeds but the creation of the public key's file. -/
def pubUncreatable : KeygenEnv := { okEnv with create := fun k => if k = .pub then some ⟨0⟩ else none }

/-- A file `server.key` already there. -/
def oldKeyFiles (n : String) : Option (List UInt8) := if n = "server.key" then some [9] else none

end Results

end Noise

/-! ## `run` and `main` -/

/-- Why `main` exits with status 1, as it prints it. -/
inductive MainError
  /-- `flag.Usage()`. -/
  | usage
  /-- `invalid domain %+q: %v`. -/
  | invalidDomain (arg : String) (e : OsError)
  /-- `cannot resolve %+q: %v`. -/
  | cannotResolve (arg : String) (e : OsError)
  /-- `-pubkey-file may only be used with -gen-key`. -/
  | pubkeyFileWithoutGenKey
  /-- `only one of -privkey and -privkey-file may be used`. -/
  | bothPrivkeys
  /-- `cannot read privkey from file: %v`. -/
  | cannotReadPrivkey (e : OsError)
  /-- `privkey format error: %v`. -/
  | privkeyFormat (e : OsError)
  /-- The error of generating a temporary keypair, printed alone. -/
  | temporaryKeypair (e : OsError)
  /-- `cannot generate keypair: %v`. -/
  | cannotGenerateKeypair (e : OsError)
  /-- `log.Fatal(err)` on the error of `run`. -/
  | fatal (e : OsError)
deriving DecidableEq

/-- How the process ends. -/
inductive Exit
  /-- With status 1: `os.Exit(1)` or `log.Fatal`. -/
  | failed (e : MainError)
  /-- With status 0: `main` returns. -/
  | exited
  /-- Never: `run` waits for a UDP loop that does not return. -/
  | serving
deriving DecidableEq

/-- What the calls of `run` return. -/
structure RunEnv where
  /-- `kcp.ServeConn`. -/
  serveConn : Option OsError
  /-- `net.ListenPacket("udp", udpAddr)`. -/
  listen : String → Option OsError
  /-- What `loop` returns: the error of a `ReadFrom` that is not temporary, or `none` when
  `recvLoop` never returns. -/
  loop : Option OsError

/-- How `run` ends. -/
inductive RunResult
  /-- It returns this error, or nil. -/
  | returns (err : Option OsError)
  /-- It waits in `wg.Wait()` forever. -/
  | blocks
deriving DecidableEq

/-- What `run` does in both servers: the goroutine running `loop` logs its error and calls
`wg.Done()`, so `run` returns nil once the loop ends, and at once when there is no UDP address
and nothing was added to the wait group. -/
def serve (env : RunEnv) (udpAddr : String) : RunResult :=
  match env.serveConn with
  | some e => .returns (some e)
  | none =>
    if udpAddr ≠ "" then
      match env.listen udpAddr with
      | some e => .returns (some e)
      | none =>
        match env.loop with
        | some _ => .returns none
        | none => .blocks
    else .returns none

/-- The end of `main`: `log.Fatal(err)` on an error of `run`, else return. -/
def Exit.ofRun : RunResult → Exit
  | .returns (some e) => .failed (.fatal e)
  | .returns none => .exited
  | .blocks => .serving

namespace Noise

/-- The command line of the Noise server after `flag.Parse()`. -/
structure Flags where
  genKey : Bool
  privkey : String
  privkeyFile : String
  pubkeyFile : String
  udp : String
  /-- The positional arguments. -/
  args : List String

/-- What the calls of the Noise server's `main` in server mode return. -/
structure MainEnv where
  /-- `dns.ParseName`. -/
  parseName : String → Option OsError
  /-- `net.ResolveTCPAddr("tcp", ...)`. -/
  resolve : String → Option OsError
  /-- `readKeyFromFile`. -/
  readKey : String → Except OsError (List UInt8)
  /-- `noise.DecodeKey`. -/
  decodeKey : String → Except OsError (List UInt8)
  /-- `noise.GenerateKeypair()`, for a temporary keypair. -/
  generate : Except OsError (List UInt8 × List UInt8)
  /-- The calls of `run`. -/
  runCalls : RunEnv

/-- `run` of the Noise server: it logs the public key and passes the keypair to
`acceptSessions`, which the outcome does not depend on. -/
def run (env : RunEnv) (udpAddr : String) : RunResult := serve env udpAddr

variable (encodeKey : List UInt8 → List UInt8) (kenv : KeygenEnv)
  (files : String → Option (List UInt8)) (env : MainEnv)

/-- The private key the server runs with: from `-privkey-file` or `-privkey`, not both, and a
temporary one when neither gives a key. -/
def privkeyOf (f : Flags) : Except MainError (List UInt8) := do
  let key ←
    if f.privkeyFile ≠ "" ∧ f.privkey ≠ "" then throw .bothPrivkeys
    else if f.privkeyFile ≠ "" then (env.readKey f.privkeyFile).mapError .cannotReadPrivkey
    else if f.privkey ≠ "" then (env.decodeKey f.privkey).mapError .privkeyFormat
    else pure []
  if key.length = 0 then
    match env.generate with
    | .ok (priv, _) => pure priv
    | .error e => throw (.temporaryKeypair e)
  else pure key

/-- Server mode up to `run`: two positional arguments, the domain and the upstream address,
no `-pubkey-file`, and a private key. -/
def serverSetup (f : Flags) : Except MainError (List UInt8) :=
  match f.args with
  | [domain, upstream] =>
    match env.parseName domain with
    | some e => .error (.invalidDomain domain e)
    | none =>
      match env.resolve upstream with
      | some e => .error (.cannotResolve upstream e)
      | none => if f.pubkeyFile ≠ "" then .error .pubkeyFileWithoutGenKey else privkeyOf env f
  | _ => .error .usage

/-- `main` of the Noise server. -/
def main (f : Flags) : Exit :=
  if f.genKey then
    if f.args ≠ [] ∨ f.privkey ≠ "" ∨ f.udp ≠ "" then .failed .usage
    else
      match (generateKeypair encodeKey kenv f.privkeyFile f.pubkeyFile files).2 with
      | some e => .failed (.cannotGenerateKeypair e)
      | none => .exited
  else
    match serverSetup env f with
    | .error e => .failed e
    | .ok _ => Exit.ofRun (run env.runCalls f.udp)

end Noise

namespace Plain

/-- The command line of the plain server after `flag.Parse()`. -/
structure Flags where
  udp : String
  /-- The positional arguments. -/
  args : List String

/-- What the calls of the plain server's `main` return. -/
structure MainEnv where
  /-- `dns.ParseName`. -/
  parseName : String → Option OsError
  /-- `net.ResolveTCPAddr("tcp", ...)`. -/
  resolve : String → Option OsError
  /-- The calls of `run`. -/
  runCalls : RunEnv

/-- `run` of the plain server. -/
def run (env : RunEnv) (udpAddr : String) : RunResult := serve env udpAddr

/-- `main` of the plain server. -/
def main (env : MainEnv) (f : Flags) : Exit :=
  match f.args with
  | [domain, upstream] =>
    match env.parseName domain with
    | some e => .failed (.invalidDomain domain e)
    | none =>
      match env.resolve upstream with
      | some e => .failed (.cannotResolve upstream e)
      | none => Exit.ofRun (run env.runCalls f.udp)
  | _ => .failed .usage

end Plain

end Dnstt
