import EdgeVms.Domain.Signer
import EdgeVms.Domain.Tokens
import EdgeVms.Process.Pool
import EdgeVms.Process.Versioned

/-! # The keys of the signer

One certificate authority and one token issuer, in memory and in the variable
`domain/signer`.  The second half is the service over its life: rotations,
restarts and backups at one clock.  The third is any number of constructions
and rotations over one variable, request by request.
-/

namespace EdgeVms.Domain

open Python Process

structure Root (K : Type) where
  cert : Certificate K
  key : K
  deriving DecidableEq

/-- The row of `domain/signer`, and a backup. -/
structure Keys (K : Type) where
  caKey : K
  caCert : Certificate K
  tokenKey : K
  kid : String
  gen : Int
  deriving DecidableEq

def Keys.root {K : Type} (items : Keys K) : Root K := ⟨items.caCert, items.caKey⟩

structure Signer (K : Type) where
  domain : String
  org : String
  root : Root K
  tokens : TokenIssuer K
  generation : Int

/-- `_name(cn, org)` -/
def nameOf (cn org : String) : Name := ⟨"CN=" ++ cn ++ ",O=" ++ org, [cn]⟩

/-- `LIFETIMES["root"]["lifetime"]` -/
def rootLifetime : ℚ := 10 * (365 * 86400)

namespace Signer

variable {K : Type}

/-- Each generation of the root has its own name. -/
def rootCn (domain : String) (generation : Int) : String := domain ++ " root g" ++ toString generation

/-- `key` is the pair that was generated. -/
def newRoot (cn org : String) (now : ℚ) (key : K) : Root K :=
  ⟨⟨nameOf cn org, nameOf cn org, key, now - 60, now + rootLifetime, some key⟩, key⟩

/-- What `_persist` and `backup` write: of the token keys, only the current one. -/
def keys (signer : Signer K) : Keys K :=
  ⟨signer.root.key, signer.root.cert, signer.tokens.key, signer.tokens.kid, signer.generation⟩

/-- The signer that finds its variable written. -/
def load (domain org : String) (items : Keys K) : Signer K :=
  ⟨domain, org, items.root, ⟨items.tokenKey, items.kid, []⟩, items.gen⟩

/-- The signer that finds nothing. -/
def create (domain org : String) (now : ℚ) (key tokenKey : K) (kid : String) : Signer K :=
  ⟨domain, org, newRoot (rootCn domain 1) org now key, ⟨tokenKey, kid, []⟩, 1⟩

/-- `rotate_root`, up to the write. -/
def withNewRoot (signer : Signer K) (now : ℚ) (key : K) : Signer K :=
  { signer with
    root := newRoot (rootCn signer.domain (signer.generation + 1)) signer.org now key
    generation := signer.generation + 1 }

end Signer

/-! ## The service over its life -/

structure KeyService (K : Type) where
  time : ℚ
  signer : Signer K
  /-- `domain/signer` -/
  stored : Keys K
  backups : List (Keys K)
  issued : List (Token K)
  /-- Every token key so far, under its id. -/
  made : Dict K
  /-- Until when each rotated key is to be accepted; a key that is current again is not among them. -/
  overlaps : Dict ℚ

namespace KeyService

variable {K : Type}

inductive Event (K : Type) where
  | wait (seconds : ℚ)
  | issue (subject : String) (lifetime : ℚ) (jti : String)
  | rotate (overlap : ℚ) (key : K) (kid : String)
  | rotateRoot (key : K)
  | restart
  | backup
  | restore (which : Nat)

/-- A signer on its first start. -/
def start (domain org : String) (time : ℚ) (key tokenKey : K) (kid : String) : KeyService K :=
  let signer := Signer.create domain org time key tokenKey kid
  ⟨time, signer, signer.keys, [], [], [(kid, tokenKey)], []⟩

/-- A new process over the variable. -/
def load (state : KeyService K) (items : Keys K) : KeyService K :=
  { state with
    signer := .load state.signer.domain state.signer.org items
    stored := items
    overlaps := state.overlaps.pop items.kid }

def step (state : KeyService K) : Event K → KeyService K
  | .wait seconds => { state with time := state.time + |seconds| }
  | .issue subject lifetime jti =>
    { state with issued := state.signer.tokens.issue subject lifetime state.time jti :: state.issued }
  | .rotate overlap key kid =>
    -- `secrets.token_hex` does not repeat itself
    if (state.made.get? kid).isSome then state
    else
      { state with
        signer := { state.signer with tokens := state.signer.tokens.rotate overlap state.time key kid }
        made := state.made.set kid key
        overlaps := state.overlaps.set state.signer.tokens.kid (state.time + overlap) }
  | .rotateRoot key =>
    let signer := state.signer.withNewRoot state.time key
    { state with signer := signer, stored := signer.keys }
  | .restart => state.load state.stored
  | .backup => { state with backups := state.backups ++ [state.signer.keys] }
  | .restore which =>
    match state.backups[which]? with
    | some items => state.load items
    | none => state

end KeyService

/-! ## Constructions and rotations side by side -/

/-- `κ` are the calls; a construction gives its name to the instance that it makes. -/
inductive SignerRequest (K κ : Type) where
  | get
  | put (items : Keys K) (cas : Nat)
  /-- A change of an instance's memory; the answer is what was there. -/
  | swap (which : κ) (change : Option (Signer K) → Option (Signer K))

inductive SignerError where
  | conflict
  | noInstance
  deriving DecidableEq

@[reducible] def SignerRequest.Answer {K κ : Type} : SignerRequest K κ → Type
  | .get => Option (Keys K) × Nat
  | .put _ _ => Except SignerError Unit
  | .swap _ _ => Option (Signer K)

/-- Where a call is; `started` is the root that it started from, if there was one. -/
inductive SignerPhase (K : Type) where
  | idle
  | rereading (started : Option (Root K))
  | recalling
  | writing (started : Option (Root K))
  deriving DecidableEq

abbrev signerInterface (K κ : Type) : Interface := ⟨SignerRequest K κ, SignerRequest.Answer⟩

abbrev SignerProgram (K κ α : Type) := Proc (signerInterface K κ) (SignerPhase K) SignerError α

namespace SignerProgram

variable {K κ : Type}

def ask (phase : SignerPhase K) (request : SignerRequest K κ) : SignerProgram K κ request.Answer :=
  Proc.perform (I := signerInterface K κ) phase request

/-- `_persist` -/
def persist (started : Option (Root K)) (items : SignerProgram K κ (Keys K)) : SignerProgram K κ Unit := do
  let (_, idx) ← ask (.rereading started) .get
  let items ← items
  let answer ← ask (.writing started) (.put items idx)
  Proc.ofExcept answer

/-- `__init__`; `key`, `tokenKey` and `kid` are what it generates on a first start. -/
def construct (me : κ) (domain org : String) (now : ℚ) (key tokenKey : K) (kid : String) :
    SignerProgram K κ (Signer K) := do
  let (items, _) ← ask .idle .get
  match items with
  | some items =>
    let signer := Signer.load domain org items
    let _ ← ask .idle (.swap me fun _ => some signer)
    return signer
  | none =>
    let signer := Signer.create domain org now key tokenKey kid
    persist none (return signer.keys)
    -- nobody else has the object before `__init__` returns
    let _ ← ask .idle (.swap me fun _ => some signer)
    return signer

/-- The new root's key, signed by the old root. -/
def crossCertificate (old new : Root K) (overlap now : ℚ) : Certificate K :=
  ⟨new.cert.subject, old.cert.subject, new.cert.publicKey, now - 60, now + overlap, some old.key⟩

/-- With the bundle as the call leaves it. -/
def rotateRoot (which : κ) (bundle : TrustBundle K) (overlap now : ℚ) (key : K) :
    SignerProgram K κ (Root K × Certificate K × TrustBundle K) := do
  let before ← ask .idle (.swap which (Option.map fun signer => signer.withNewRoot now key))
  match before with
  | none => throw .noInstance
  | some signer =>
    let old := signer.root
    let new := (signer.withNewRoot now key).root
    -- `_persist` writes what the memory holds by then
    persist (some old) do
      match ← ask .recalling (.swap which id) with
      | none => throw .noInstance
      | some me => return me.keys
    return (new, crossCertificate old new overlap now, (bundle.add new.cert 0).retire old.cert (now + overlap))

end SignerProgram

structure SignerStore (K κ : Type) where
  row : Versioned Unit fun _ => Keys K
  memory : κ → Option (Signer K)
  /-- The roots that the variable has held; no program sees it. -/
  persisted : List (Root K)

namespace SignerStore

variable {K κ : Type}

def start (row : Versioned Unit fun _ => Keys K) : SignerStore K κ :=
  ⟨row, fun _ => none, (row.read ()).toList.map Keys.root⟩

variable [DecidableEq κ]

def handler : Handler (signerInterface K κ) (SignerStore K κ)
  | .get, store => ((store.row.read (), store.row.version ()), store)
  | .put items cas, store =>
    if cas = store.row.version () then
      (.ok (), { store with row := store.row.write () items, persisted := store.persisted ++ [items.root] })
    else (.error .conflict, store)
  | .swap which change, store =>
    (store.memory which, { store with memory := Function.update store.memory which (change (store.memory which)) })

end SignerStore

inductive SignerCall (K κ : Type) where
  | construct (domain org : String) (now : ℚ) (key tokenKey : K) (kid : String)
  | rotate (which : κ) (bundle : TrustBundle K) (overlap now : ℚ) (key : K)

def SignerCall.program {K κ : Type} (me : κ) : SignerCall K κ → SignerProgram K κ Unit
  | .construct domain org now key tokenKey kid => do
    let _ ← SignerProgram.construct me domain org now key tokenKey kid
  | .rotate which bundle overlap now key => do
    let _ ← SignerProgram.rotateRoot which bundle overlap now key

end EdgeVms.Domain
