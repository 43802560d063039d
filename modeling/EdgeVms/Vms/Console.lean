import EdgeVms.Vms.ClusterController

/-! # The consoles

`POST /cameras`, on one box and in a cluster: a key that has an answer gets it again,
any other one creates a camera and places it.  The cache lives as long as the console.
-/

namespace EdgeVms.Vms

open Process Python Platform VmsController

variable {M : Type}

structure Response where
  status : Nat
  body : Value

namespace Console

/-- `{**r, "worker": pl.worker if pl else None}` -/
def created (r : Dict Value) (pl : Option Placement) : Response :=
  let worker := match pl with
    | some pl => .str pl.worker
    | none => .none
  ⟨201, .dict (r.set "worker" worker)⟩

/-- The request, its body given by its fields or by the exception with which a body without fields ends: the
answer, and the cache as it is afterwards.  An exception other than `Refused` leaves the handler before anything
is cached. -/
def post (missing detail : String) (place : Int → Program M (Option Placement)) (key : Option String)
    (body : Except Exn (Dict Value)) (seen : Dict Response) : Program M (Response × Dict Response) :=
  match key with
  | none | some "" => return (⟨400, .dict [(detail, .str (.plain missing))]⟩, seen)
  | some key =>
    match seen.get? key with
    | some resp => return (resp, seen)
    | none => do
      let resp ← tryCatch
        (do
          let r ← createCamera (← Proc.ofExcept body)
          let pl ← place (← Program.value (do (← Dict.item r "id").toInt))
          return created r pl)
        fun error => match error with
          | .refused message => return ⟨400, .dict [(detail, .str (.plain message))]⟩
          | error => throw error
      return (resp, seen.set key resp)

end Console

/-- The console of one box. -/
def VmsConsole.doPost (capacity : Int) : Option String → Except Exn (Dict Value) → Dict Response →
    Program M (Response × Dict Response) :=
  Console.post "Idempotency-Key header is required" "detail" fun cid => VmsController.place capacity cid none

/-- The console of a cluster. -/
def ClusterConsole.doPost (capacity : Int) : Option String → Except Exn (Dict Value) → Dict Response →
    Program M (Response × Dict Response) :=
  Console.post "Idempotency-Key required" "error" fun cid => ClusterController.place capacity cid none

end EdgeVms.Vms
