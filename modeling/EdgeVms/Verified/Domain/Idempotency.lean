import EdgeVms.Domain.Api
import EdgeVms.Process.Run

/-! # What the idempotency keys let through

The cache of responses stands in front of the refusal of placement fields, the
authentication and the routing.  `serve_cases` says what one call can do; which
sequences of calls keep the promises of the API follows from it.
-/

namespace EdgeVms.Verified.Idempotency

open Python EdgeVms.Cluster Domain Process

variable {F R E : Type}

/-- The verifier accepts the token of the call. -/
def Accepted (around : Surroundings F R E) (call : Call F) : Prop :=
  ∃ token subject, call.token = some token ∧ token ≠ "" ∧ around.verifier token = .ok subject

/-- The Node whose console the operation is for. -/
def owner (around : Surroundings F R E) : Operation → Except (Failure E) String
  | .update camera => Prod.fst <$> ConsoleAPI.locate around camera
  | .create node => .ok node

/-- Nothing stops the call before a Node is asked: no refused field, no bad token, no unknown camera
and no missing console. -/
def Reaches (around : Surroundings F R E) (call : Call F) : Prop :=
  (∀ field ∈ call.fields.map Prod.fst, field ∉ FORBIDDEN_FIELDS) ∧ Accepted around call ∧
    ∃ node console, owner around call.operation = .ok node ∧ around.consoles node = .ok console

/-- The same operation on the same camera with the same fields, in any order. -/
def Same (call call' : Call F) : Prop :=
  (match call.operation, call'.operation with
    | .update camera, .update camera' => camera = camera'
    | .create _, .create _ => True
    | _, _ => False) ∧
  ∀ field, call.fields.get? field = call'.fields.get? field

/-- A call that was served, and how it ended. -/
structure Served (F R E : Type) where
  around : Surroundings F R E
  call : Call F
  result : Except (Failure E) (Response R)

def Served.Returned (served : Served F R E) : Prop := ∃ resp, served.result = .ok resp

/-- The API with what it has served. -/
structure Session (F R E : Type) where
  api : ConsoleAPI R
  served : List (Served F R E)

def Session.step (session : Session F R E) (event : Surroundings F R E × Call F) : Session F R E :=
  let (result, api) := event.2.serve event.1 session.api
  ⟨api, session.served ++ [⟨event.1, event.2, result⟩]⟩

/-- A new API with a verifier. -/
def opened : Session F R E := ⟨.new true, []⟩

/-- What the API promises of all the calls so far. -/
structure Sound (session : Session F R E) : Prop where
  authenticated : ∀ a ∈ session.served, a.Returned → Accepted a.around a.call
  once : (session.api.asked.map Asked.key).Nodup
  same : ∀ a ∈ session.served, ∀ b ∈ session.served, a.Returned → b.Returned → a.call.key = b.call.key →
    Same a.call b.call

/-- A key with a response comes again with an accepted token and the same edit; a key whose Node
raised does not reach a Node again. -/
def Allowed (session : Session F R E) (event : Surroundings F R E × Call F) : Prop :=
  if (session.api.seen.get? event.2.key).isSome then
    Accepted event.1 event.2 ∧
      ∀ a ∈ session.served, a.Returned → a.call.key = event.2.key → Same a.call event.2
  else event.2.key ∈ session.api.asked.map Asked.key → ¬Reaches event.1 event.2

/-! ## One call -/

section Call

variable {around : Surroundings F R E} {api : ConsoleAPI R}

theorem refusePlacement_ok {fields : Dict F} :
    ConsoleAPI.refusePlacement (E := E) fields = .ok () ↔ ∀ field ∈ fields.map Prod.fst, field ∉ FORBIDDEN_FIELDS := by
  rw [ConsoleAPI.refusePlacement]
  simp only [ne_eq, ite_not]
  split
  next none => simpa using none
  next some =>
    simp only [reduceCtorEq, false_iff]
    simpa using some

theorem subject_ok (verified : api.verified = true) {call : Call F} :
    (∃ subject, api.subject around call.token = .ok subject) ↔ Accepted around call := by
  unfold ConsoleAPI.subject
  rw [verified]
  constructor
  · rintro ⟨subject, accepted⟩
    simp only [Bool.not_true, Bool.false_eq_true, if_false] at accepted
    split at accepted
    next => cases accepted
    next => cases accepted
    next _ token nonempty given =>
      obtain ⟨who, said, -⟩ := map_eq_ok.mp accepted
      exact ⟨token, who, given, nonempty, said⟩
  · rintro ⟨token, who, given, nonempty, said⟩
    refine ⟨some who, ?_⟩
    simp only [Bool.not_true, Bool.false_eq_true, if_false, given]
    exact map_eq_ok.mpr ⟨who, said, rfl⟩

/-- What a call that is not answered from the cache leaves behind. -/
inductive Fresh (around : Surroundings F R E) (call : Call F) (api : ConsoleAPI R) :
    Except (Failure E) (Response R) × ConsoleAPI R → Prop
  | refused (error) (stopped : ¬Reaches around call) : Fresh around call api (.error error, api)
  | raised (error node) (reaches : Reaches around call) :
    Fresh around call api (.error error, { api with asked := api.asked ++ [⟨node, call.key⟩] })
  | returned (resp node) (reaches : Reaches around call) :
    Fresh around call api
      (.ok resp, { api with asked := api.asked ++ [⟨node, call.key⟩], seen := api.seen.set call.key resp })

theorem forward_fresh {call : Call F} (reaches : Reaches around call) (node : String)
    (answer : Except (Failure E) R) (resp : R → Response R) :
    Fresh around call api (api.forward node call.key answer resp) := by
  cases answer with
  | ok result => exact .returned _ node reaches
  | error error => exact .raised error node reaches

theorem serve_cached {call : Call F} {resp : Response R} (cached : api.seen.get? call.key = some resp) :
    call.serve around api = (.ok resp, api) := by
  unfold Call.serve
  split
  next => simp only [ConsoleAPI.updateCamera, cached]
  next => simp only [ConsoleAPI.createCamera, cached]

theorem serve_fresh (verified : api.verified = true) {call : Call F} (fresh : api.seen.get? call.key = none) :
    Fresh around call api (call.serve around api) := by
  unfold Call.serve
  cases operation : call.operation with
  | update camera =>
    simp only [ConsoleAPI.updateCamera, fresh]
    split
    next subject node cluster console prepared =>
      obtain ⟨_, allowed, prepared⟩ := bind_eq_ok.mp prepared
      obtain ⟨who, accepted, prepared⟩ := bind_eq_ok.mp prepared
      obtain ⟨⟨node', cluster'⟩, located, prepared⟩ := bind_eq_ok.mp prepared
      obtain ⟨console', there, same⟩ := bind_eq_ok.mp prepared
      cases same
      refine forward_fresh ⟨refusePlacement_ok.mp allowed, (subject_ok verified).mp ⟨_, accepted⟩, node', _, ?_,
        there⟩ node' _ _
      rw [operation]
      exact map_eq_ok.mpr ⟨_, located, rfl⟩
    next error prepared =>
      refine .refused error ?_
      rintro ⟨allowed, accepted, node, console, located, there⟩
      obtain ⟨who, accepted⟩ := (subject_ok verified).mpr accepted
      rw [operation] at located
      obtain ⟨⟨node', cluster⟩, found, same⟩ := map_eq_ok.mp located
      cases same
      rw [refusePlacement_ok.mpr allowed, accepted, found] at prepared
      simp only [Except.bind, Bind.bind, there] at prepared
      cases prepared
  | create node =>
    simp only [ConsoleAPI.createCamera, fresh]
    split
    next subject console prepared =>
      obtain ⟨_, allowed, prepared⟩ := bind_eq_ok.mp prepared
      obtain ⟨who, accepted, prepared⟩ := bind_eq_ok.mp prepared
      obtain ⟨console', there, same⟩ := bind_eq_ok.mp prepared
      cases same
      refine forward_fresh ⟨refusePlacement_ok.mp allowed, (subject_ok verified).mp ⟨_, accepted⟩, node, console, ?_,
        there⟩ node _ _
      rw [operation]
      rfl
    next error prepared =>
      refine .refused error ?_
      rintro ⟨allowed, accepted, node', console, located, there⟩
      obtain ⟨who, accepted⟩ := (subject_ok verified).mpr accepted
      rw [operation] at located
      cases located
      rw [refusePlacement_ok.mpr allowed, accepted] at prepared
      simp only [Except.bind, Bind.bind, there] at prepared
      cases prepared

end Call

/-! ## Runs -/

/-- The cache holds the keys of the calls that returned. -/
structure Kept (session : Session F R E) : Prop where
  verified : session.api.verified = true
  cached : ∀ key, (session.api.seen.get? key).isSome ↔ ∃ a ∈ session.served, a.Returned ∧ a.call.key = key

theorem kept_opened : Kept (opened : Session F R E) := ⟨rfl, fun key => by simp [opened, ConsoleAPI.new]⟩

theorem sound_opened : Sound (opened : Session F R E) where
  authenticated := by simp [opened]
  once := List.nodup_nil
  same := by simp [opened]

theorem Same.refl (call : Call F) : Same call call := by
  refine ⟨?_, fun _ => rfl⟩
  cases call.operation with
  | update camera => rfl
  | create node => trivial

theorem Same.symm {call call' : Call F} (same : Same call call') : Same call' call := by
  obtain ⟨operations, fields⟩ := same
  refine ⟨?_, fun field => (fields field).symm⟩
  revert operations
  cases call.operation <;> cases call'.operation <;> simp [eq_comm]

variable {session : Session F R E} {event : Surroundings F R E × Call F}

/-- A call that raised changes nothing but what the Nodes were asked for. -/
theorem Kept.raised (kept : Kept session) (error : Failure E) (asked : List Asked) :
    Kept ⟨{ session.api with asked := asked }, session.served ++ [⟨event.1, event.2, .error error⟩]⟩ := by
  refine ⟨kept.verified, fun key => (kept.cached key).trans ?_⟩
  constructor
  · rintro ⟨a, inside, returned, same⟩
    exact ⟨a, List.mem_append_left _ inside, returned, same⟩
  · rintro ⟨a, inside, ⟨resp, returned⟩, same⟩
    obtain inside | here := List.mem_append.mp inside
    · exact ⟨a, inside, ⟨resp, returned⟩, same⟩
    · rw [List.mem_singleton.mp here] at returned
      cases returned

theorem Kept.step (kept : Kept session) (event : Surroundings F R E × Call F) : Kept (session.step event) := by
  unfold Session.step
  cases cached : session.api.seen.get? event.2.key with
  | some resp =>
    rw [serve_cached cached]
    refine ⟨kept.verified, fun key => (kept.cached key).trans ?_⟩
    constructor
    · rintro ⟨a, inside, returned, same⟩
      exact ⟨a, List.mem_append_left _ inside, returned, same⟩
    · rintro ⟨a, inside, returned, same⟩
      obtain inside | here := List.mem_append.mp inside
      · exact ⟨a, inside, returned, same⟩
      · -- the response that was cached came from a call of its own
        rw [List.mem_singleton.mp here] at same
        exact (kept.cached key).mp (by rw [← same, cached]; rfl)
  | none =>
    have fresh : Fresh event.1 event.2 session.api (event.2.serve event.1 session.api) :=
      serve_fresh kept.verified cached
    generalize event.2.serve event.1 session.api = after at fresh
    cases fresh with
    | refused error stopped => exact kept.raised error session.api.asked
    | raised error node reaches => exact kept.raised error _
    | returned resp node reaches =>
      refine ⟨kept.verified, fun key => ?_⟩
      by_cases same : key = event.2.key
      · rw [same, Dict.get?_set_self]
        exact ⟨fun _ => ⟨⟨event.1, event.2, .ok resp⟩, by simp, ⟨resp, rfl⟩, rfl⟩, fun _ => rfl⟩
      · rw [Dict.get?_set_other _ _ same]
        refine (kept.cached key).trans ?_
        simp only [List.mem_append, List.mem_singleton]
        constructor
        · rintro ⟨a, inside, returned, keys⟩
          exact ⟨a, .inl inside, returned, keys⟩
        · rintro ⟨a, inside | rfl, returned, keys⟩
          · exact ⟨a, inside, returned, keys⟩
          · exact absurd keys.symm same

/-- The promises after a call that raised. -/
theorem sound_raised (error : Failure E) (api : ConsoleAPI R) :
    Sound ⟨api, session.served ++ [⟨event.1, event.2, .error error⟩]⟩ ↔ Sound ⟨api, session.served⟩ := by
  have earlier : ∀ a ∈ session.served ++ [⟨event.1, event.2, .error error⟩], a.Returned → a ∈ session.served := by
    rintro a inside ⟨resp, returned⟩
    obtain inside | here := List.mem_append.mp inside
    · exact inside
    · rw [List.mem_singleton.mp here] at returned
      cases returned
  constructor
  · intro sound
    exact ⟨fun a inside => sound.authenticated a (List.mem_append_left _ inside), sound.once,
      fun a inside b inside' => sound.same a (List.mem_append_left _ inside) b (List.mem_append_left _ inside')⟩
  · intro sound
    exact ⟨fun a inside returned => sound.authenticated a (earlier a inside returned) returned, sound.once,
      fun a inside b inside' returned returned' =>
        sound.same a (earlier a inside returned) b (earlier b inside' returned') returned returned'⟩

/-- The promises after a call that returned. -/
theorem sound_returned (resp : Response R) (api : ConsoleAPI R) :
    Sound ⟨api, session.served ++ [⟨event.1, event.2, .ok resp⟩]⟩ ↔
      Sound ⟨api, session.served⟩ ∧ Accepted event.1 event.2 ∧
        ∀ a ∈ session.served, a.Returned → a.call.key = event.2.key → Same a.call event.2 := by
  have last : (⟨event.1, event.2, .ok resp⟩ : Served F R E) ∈ session.served ++ [⟨event.1, event.2, .ok resp⟩] := by
    simp
  constructor
  · intro sound
    refine ⟨⟨fun a inside => sound.authenticated a (List.mem_append_left _ inside), sound.once,
      fun a inside b inside' =>
        sound.same a (List.mem_append_left _ inside) b (List.mem_append_left _ inside')⟩, ?_, ?_⟩
    · exact sound.authenticated _ last ⟨resp, rfl⟩
    · exact fun a inside returned keys =>
        sound.same a (List.mem_append_left _ inside) _ last returned ⟨resp, rfl⟩ keys
  · rintro ⟨sound, accepted, matching⟩
    constructor
    · intro a inside returned
      obtain inside | here := List.mem_append.mp inside
      · exact sound.authenticated a inside returned
      · rw [List.mem_singleton.mp here]
        exact accepted
    · exact sound.once
    · intro a inside b inside' returned returned' keys
      obtain inside | here := List.mem_append.mp inside
      · obtain inside' | here' := List.mem_append.mp inside'
        · exact sound.same a inside b inside' returned returned' keys
        · obtain rfl := List.mem_singleton.mp here'
          exact matching a inside returned keys
      · obtain rfl := List.mem_singleton.mp here
        obtain inside' | here' := List.mem_append.mp inside'
        · exact (matching b inside' returned' keys.symm).symm
        · obtain rfl := List.mem_singleton.mp here'
          exact .refl _

theorem sound_asked {served : List (Served F R E)} {api : ConsoleAPI R} (node key : String) (seen : Dict (Response R)) :
    Sound ⟨{ api with asked := api.asked ++ [⟨node, key⟩], seen := seen }, served⟩ ↔
      Sound ⟨api, served⟩ ∧ key ∉ api.asked.map Asked.key := by
  constructor
  · intro sound
    have once := sound.once
    rw [List.map_append, List.nodup_append] at once
    exact ⟨⟨sound.authenticated, once.1, sound.same⟩, fun earlier => once.2.2 key earlier key (by simp) rfl⟩
  · rintro ⟨sound, new⟩
    refine ⟨sound.authenticated, ?_, sound.same⟩
    rw [List.map_append, List.nodup_append]
    refine ⟨sound.once, by simp, ?_⟩
    rintro key' earlier last here rfl
    rw [List.map_singleton, List.mem_singleton] at here
    have same : key' = key := here
    exact new (same ▸ earlier)

theorem sound_step (kept : Kept session) (event : Surroundings F R E × Call F) :
    Sound (session.step event) ↔ Sound session ∧ Allowed session event := by
  unfold Session.step Allowed
  cases cached : session.api.seen.get? event.2.key with
  | some resp =>
    rw [serve_cached cached, if_pos (show (some resp).isSome = true from rfl)]
    exact sound_returned resp session.api
  | none =>
    have fresh : Fresh event.1 event.2 session.api (event.2.serve event.1 session.api) :=
      serve_fresh kept.verified cached
    generalize event.2.serve event.1 session.api = after at fresh
    rw [if_neg (by simp)]
    cases fresh with
    | refused error stopped => exact (sound_raised error session.api).trans ⟨fun sound => ⟨sound, fun _ => stopped⟩, And.left⟩
    | raised error node reaches =>
      refine (sound_raised error _).trans ((sound_asked node event.2.key session.api.seen).trans ?_)
      exact and_congr_right fun _ => ⟨fun new again => absurd again new, fun allowed again => allowed again reaches⟩
    | returned resp node reaches =>
      refine (sound_returned resp _).trans ?_
      rw [sound_asked node event.2.key, and_assoc]
      refine and_congr_right fun _ => ⟨fun all again => absurd again all.1, fun allowed => ?_⟩
      refine ⟨fun again => allowed again reaches, reaches.2.1, fun a inside returned keys => ?_⟩
      -- no call has returned under a key that is not cached
      have there := (kept.cached event.2.key).mpr ⟨a, inside, returned, keys⟩
      rw [cached] at there
      cases there

/-- The API keeps its promises exactly in the runs where every key that has a response comes back
with an accepted token and the same edit, and no key that a Node was asked for without a response
reaches a Node again. -/
theorem idempotency_authenticates (events : List (Surroundings F R E × Call F)) :
    Sound (events.foldl Session.step opened) ↔ Along Session.step Allowed events opened :=
  (after_iff_along (fun _ event kept => kept.step event) (fun _ event kept => sound_step kept event) events
    kept_opened).trans ⟨And.right, fun along => ⟨sound_opened, along⟩⟩

/-- Node 4 holds camera 7 and takes any edit; the verifier knows one token. -/
def gate : Surroundings String Nat Unit where
  fed := Federation.empty.add
    ⟨"south", ⟨fun _ => .ok (some [("node", .str (.plain "node-4")), ("cameras", .str (.plain "7"))], 12),
      fun _ => .ok ["nodes/node-4"]⟩, fun _ => .ok none⟩
  consoles _ := .ok ⟨fun _ _ _ => .ok 1, fun _ _ => .ok 999⟩
  verifier token := if token = "alice-token" then .ok "alice" else .error (.api 401 "bad token")

/-- An edit of camera 7, and a call without a token under its key, for another camera. -/
def replayed : List (Surroundings String Nat Unit × Call String) :=
  [(gate, ⟨.update 7, [("name", "gate")], "k1", some "alice-token"⟩),
    (gate, ⟨.update 9, [("enabled", "0")], "k1", none⟩)]

/-- Both calls return: the second one without a token, and with the response for camera 7. -/
theorem replay_returns :
    (replayed.foldl Session.step opened).served.map (fun a => (a.call.token, a.result.toOption.isSome)) =
        [(some "alice-token", true), (none, true)] ∧
      ¬Sound (replayed.foldl Session.step opened) := by
  have results : (replayed.foldl Session.step opened).served.map
      (fun a => (a.call.token, a.result.toOption.isSome)) = [(some "alice-token", true), (none, true)] := by
    decide +kernel
  refine ⟨results, fun sound => ?_⟩
  have second : (none, true) ∈ (replayed.foldl Session.step opened).served.map
      (fun a => (a.call.token, a.result.toOption.isSome)) := by
    rw [results]
    simp
  obtain ⟨a, inside, same⟩ := List.mem_map.mp second
  cases result : a.result with
  | error error =>
    have returned := congrArg Prod.snd same
    rw [result] at returned
    cases returned
  | ok resp =>
    obtain ⟨token, _, given, -, -⟩ := sound.authenticated a inside ⟨resp, result⟩
    have missing := congrArg Prod.fst same
    rw [given] at missing
    cases missing

end EdgeVms.Verified.Idempotency
