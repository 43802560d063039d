import EdgeVms.Domain.Gateway
import EdgeVms.Process.Run

/-! # The viewers of the gateway

`Recorded` remembers beside the gateway who is watching, which node was reached last
for each camera, and the frames that a viewer is owed.  A watch that finds a failover
before any reconnect does builds a new upstream and forgets the viewers of the old
one; and neither of the two ends the subscription at the old node.
-/

namespace EdgeVms.Verified.GatewayViewers

open Process Python Domain

variable {F : Type}

/-! ## Queues -/

theorem rtake_append_rtake (n : Nat) (before frames : List F) :
    (before.rtake n ++ frames).rtake n = (before ++ frames).rtake n := by
  simp only [List.rtake, List.drop_append, List.length_append, List.length_drop, List.drop_drop]
  congr 1
  · congr 1
    omega
  · congr 1
    omega

/-- A queue that is given many frames keeps the last of them. -/
theorem foldl_push (frames : List F) (queue : LeakyQueue F) (bounded : queue.q.rtake queue.maxsize = queue.q) :
    (frames.foldl (fun vq frame => vq.push frame) queue).maxsize = queue.maxsize ∧
      (frames.foldl (fun vq frame => vq.push frame) queue).q = (queue.q ++ frames).rtake queue.maxsize := by
  induction frames generalizing queue with
  | nil => exact ⟨rfl, by rw [List.append_nil, bounded]; rfl⟩
  | cons frame rest ih =>
    have still : (queue.push frame).q.rtake (queue.push frame).maxsize = (queue.push frame).q := by
      simp only [LeakyQueue.push]
      have again := rtake_append_rtake queue.maxsize (queue.q ++ [frame]) []
      simpa only [List.append_nil] using again
    obtain ⟨size, q⟩ := ih (queue.push frame) still
    refine ⟨size, ?_⟩
    rw [List.foldl_cons, q]
    simp only [LeakyQueue.push]
    rw [rtake_append_rtake, List.append_assoc]
    rfl

/-! ## What is watched -/

/-- What a viewer is owed: the frames that were handed on since it last drained its queue. -/
structure Feed (F : Type) where
  maxsize : Nat
  offered : List F
  deriving DecidableEq

/-- What is known of a camera: the node that was reached last, the frames which its tee has pushed since
they were handed on, and the viewers that watch and have not left. -/
structure Seen (F : Type) where
  node : Option String
  waiting : List F
  feeds : Dict (Feed F)

namespace Seen

def follows (node : Option String) (seen : Seen F) : Seen F :=
  if seen.node = node then seen else { seen with node, waiting := [] }

def joins (viewer : String) (maxsize : Nat) (seen : Seen F) : Seen F :=
  { seen with feeds := seen.feeds.set viewer ⟨maxsize, []⟩ }

def leaves (viewer : String) (seen : Seen F) : Seen F :=
  if (seen.feeds.pop viewer).isEmpty then ⟨none, [], []⟩ else { seen with feeds := seen.feeds.pop viewer }

/-- The last thirty frames are handed on. -/
def pumped (seen : Seen F) : Seen F :=
  { seen with
    waiting := []
    feeds := seen.feeds.mapValues fun feed => { feed with offered := feed.offered ++ seen.waiting.rtake 30 } }

def pushed (node : String) (frame : F) (seen : Seen F) : Seen F :=
  if seen.node = some node then { seen with waiting := seen.waiting ++ [frame] } else seen

def drained (viewer : String) (seen : Seen F) : Seen F :=
  match seen.feeds.get? viewer with
  | none => seen
  | some feed => { seen with feeds := seen.feeds.set viewer { feed with offered := [] } }

end Seen

structure Recorded (F : Type) where
  relay : Relay F
  seen : Int → Seen F

inductive Event (F : Type) where
  | watch (directory : Directory) (camera : Int) (token viewer : String) (maxsize : Nat)
  | leave (camera : Int) (viewer : String)
  | pump
  | reconnect (directory : Directory) (camera : Int) (token : String)
  | push (node : String) (camera : Int) (frame : F)
  | drain (camera : Int) (viewer : String)

def Recorded.sees (recorded : Recorded F) (camera : Int) (change : Seen F → Seen F) (relay : Relay F) : Recorded F :=
  ⟨relay, Function.update recorded.seen camera (change (recorded.seen camera))⟩

def watched (recorded : Recorded F) (directory : Directory) (camera : Int) (token viewer : String) (maxsize : Nat) :
    Recorded F :=
  match recorded.relay.watch directory camera token viewer maxsize with
  | .error _ => recorded
  | .ok relay => recorded.sees camera (fun seen => (seen.follows (directory.where_ camera)).joins viewer maxsize) relay

def reconnected (recorded : Recorded F) (directory : Directory) (camera : Int) (token : String) : Recorded F :=
  match recorded.relay.reconnect directory camera token with
  | .error _ => recorded
  | .ok (_, relay) =>
    recorded.sees camera (fun seen => if seen.node.isSome then seen.follows (directory.where_ camera) else seen) relay

def step (recorded : Recorded F) : Event F → Recorded F
  | .watch directory camera token viewer maxsize => watched recorded directory camera token viewer maxsize
  | .leave camera viewer => recorded.sees camera (·.leaves viewer) (recorded.relay.leave camera viewer).2
  | .pump => ⟨recorded.relay.pump, fun camera => (recorded.seen camera).pumped⟩
  | .reconnect directory camera token => reconnected recorded directory camera token
  | .push node camera frame => recorded.sees camera (·.pushed node frame) (recorded.relay.push node camera frame)
  | .drain camera viewer => recorded.sees camera (·.drained viewer) (recorded.relay.drain camera viewer)

/-- A new gateway before the tees of the nodes. -/
def start (name : String) (endpoint : String → Table (LiveTee F)) : Recorded F :=
  ⟨⟨⟨name, []⟩, endpoint⟩, fun _ => ⟨none, [], []⟩⟩

/-! ## What is promised -/

structure Serves (recorded : Recorded F) : Prop where
  /-- Who watches is among the viewers, and has the last of the frames that were handed on. -/
  seated : ∀ camera viewer feed, (recorded.seen camera).feeds.get? viewer = some feed →
    ∃ up vq, recorded.relay.upstream? camera = some up ∧ up.viewers.get? viewer = some vq ∧
      vq.maxsize = feed.maxsize ∧ vq.q = feed.offered.rtake feed.maxsize
  /-- Of the frames that the node's tee pushed, the last thirty wait to be handed on. -/
  received : ∀ camera node, (recorded.seen camera).node = some node →
    ∃ tee queue, recorded.relay.tee? node camera = some tee ∧
      tee.subscribers.get? recorded.relay.gateway.name = some queue ∧ queue.q = (recorded.seen camera).waiting.rtake 30
  subscribed : ∀ camera node tee, recorded.relay.tee? node camera = some tee →
    ((tee.subscribers.get? recorded.relay.gateway.name).isSome ↔
      ∃ up, recorded.relay.upstream? camera = some up ∧ up.node = node ∧ up.viewers ≠ [])

/-- The node admits the token, and has the camera. -/
def opens (relay : Relay F) (directory : Directory) (node : String) (camera : Int) (token : String) : Bool :=
  (directory.authorise node token camera).isOk && (relay.tee? node camera).isSome

/-- No upstream is taken to another node. -/
def Stays (recorded : Recorded F) : Event F → Prop
  | .watch directory camera token _ _ | .reconnect directory camera token =>
    ∀ up ∈ recorded.relay.upstream? camera, ∀ node ∈ directory.where_ camera,
      node = up.node ∨ opens recorded.relay directory node camera token = false
  | _ => True

/-! ## The parts of the relay -/

section Parts

variable (relay : Relay F) (node : String) (camera : Int)

@[simp] theorem name_setTee (tee : LiveTee F) : (relay.setTee node camera tee).gateway.name = relay.gateway.name := rfl

@[simp] theorem name_setUpstream (up : Upstream F) :
    (relay.setUpstream camera up).gateway.name = relay.gateway.name := rfl

@[simp] theorem tee?_setUpstream (up : Upstream F) (node' : String) (camera' : Int) :
    (relay.setUpstream camera up).tee? node' camera' = relay.tee? node' camera' := rfl

@[simp] theorem upstream?_setUpstream (up : Upstream F) (camera' : Int) :
    (relay.setUpstream camera up).upstream? camera' = if camera = camera' then some up else relay.upstream? camera' :=
  Table.get?_set _ _ _ _

@[simp] theorem tee?_popUpstream (node' : String) (camera' : Int) :
    (relay.popUpstream camera).tee? node' camera' = relay.tee? node' camera' := rfl

@[simp] theorem upstream?_popUpstream (camera' : Int) :
    (relay.popUpstream camera).upstream? camera' = if camera = camera' then none else relay.upstream? camera' :=
  Table.get?_pop _ _ _

@[simp] theorem tee?_setTee (tee : LiveTee F) (node' : String) (camera' : Int) :
    (relay.setTee node camera tee).tee? node' camera' =
      if node' = node ∧ camera = camera' then some tee else relay.tee? node' camera' := by
  simp only [Relay.tee?, Relay.setTee, Function.update_apply]
  by_cases same : node' = node
  · subst same
    simp
  · simp [same]

end Parts

/-! ## The invariant -/

/-- The relay is as it should be about one camera. -/
structure Agrees (relay : Relay F) (camera : Int) (seen : Seen F) : Prop where
  node : (relay.upstream? camera).map Upstream.node = seen.node
  viewers : ∀ up, relay.upstream? camera = some up → up.viewers ≠ [] ∧
    up.viewers.mapValues (fun vq => (vq.maxsize, vq.q)) =
      seen.feeds.mapValues fun feed => (feed.maxsize, feed.offered.rtake feed.maxsize)
  idle : relay.upstream? camera = none → seen.feeds = []
  tees : ∀ node tee, relay.tee? node camera = some tee →
    ((tee.subscribers.get? relay.gateway.name).isSome ↔ seen.node = some node)
  queue : ∀ node, seen.node = some node → ∃ tee queue, relay.tee? node camera = some tee ∧
    tee.subscribers.get? relay.gateway.name = some queue ∧ queue.maxsize = 30 ∧ queue.q = seen.waiting.rtake 30

/-- A camera is as it was if its upstream and its tees are. -/
theorem Agrees.congr {relay relay' : Relay F} {camera : Int} {seen : Seen F} (agrees : Agrees relay camera seen)
    (name : relay'.gateway.name = relay.gateway.name) (upstream : relay'.upstream? camera = relay.upstream? camera)
    (tees : ∀ node, relay'.tee? node camera = relay.tee? node camera) : Agrees relay' camera seen where
  node := by rw [upstream]; exact agrees.node
  viewers := by rw [upstream]; exact agrees.viewers
  idle := by rw [upstream]; exact agrees.idle
  tees := by simp only [name, tees]; exact agrees.tees
  queue := by simp only [name, tees]; exact agrees.queue

def Kept (recorded : Recorded F) : Prop := ∀ camera, Agrees recorded.relay camera (recorded.seen camera)

theorem Kept.serves {recorded : Recorded F} (kept : Kept recorded) : Serves recorded where
  seated camera viewer feed watching := by
    cases upstream : recorded.relay.upstream? camera with
    | none =>
      rw [(kept camera).idle upstream] at watching
      cases watching
    | some up =>
      have same := congrArg (·.get? viewer) ((kept camera).viewers up upstream).2
      simp only [Dict.get?_mapValues, watching, Option.map_some] at same
      obtain ⟨vq, found, view⟩ := Option.map_eq_some_iff.mp same
      obtain ⟨size, q⟩ := Prod.mk.inj view
      exact ⟨up, vq, rfl, found, size, q⟩
  received camera node reached := by
    obtain ⟨tee, queue, found, subscribed, -, waiting⟩ := (kept camera).queue node reached
    exact ⟨tee, queue, found, subscribed, waiting⟩
  subscribed camera node tee found := by
    rw [(kept camera).tees node tee found, ← (kept camera).node, Option.map_eq_some_iff]
    constructor
    · rintro ⟨up, upstream, at_⟩
      exact ⟨up, upstream, at_, ((kept camera).viewers up upstream).1⟩
    · rintro ⟨up, upstream, at_, -⟩
      exact ⟨up, upstream, at_⟩

/-! ## One camera at a time -/

/-- Only what belongs to `camera` differs. -/
structure Apart (camera : Int) (relay relay' : Relay F) : Prop where
  name : relay'.gateway.name = relay.gateway.name
  upstream : ∀ camera', camera ≠ camera' → relay'.upstream? camera' = relay.upstream? camera'
  tees : ∀ camera' node, camera ≠ camera' → relay'.tee? node camera' = relay.tee? node camera'

theorem Apart.refl (camera : Int) (relay : Relay F) : Apart camera relay relay :=
  ⟨rfl, fun _ _ => rfl, fun _ _ _ => rfl⟩

theorem Apart.setUpstream {camera : Int} {relay relay' : Relay F} (apart : Apart camera relay relay')
    (up : Upstream F) :
    Apart camera relay (relay'.setUpstream camera up) where
  name := apart.name
  upstream camera' other := by
    rw [upstream?_setUpstream, if_neg other]
    exact apart.upstream camera' other
  tees := apart.tees

theorem Apart.setTee {camera : Int} {relay relay' : Relay F} (apart : Apart camera relay relay') (node : String)
    (tee : LiveTee F) : Apart camera relay (relay'.setTee node camera tee) where
  name := apart.name
  upstream := apart.upstream
  tees camera' node' other := by
    rw [tee?_setTee, if_neg fun same => other same.2]
    exact apart.tees camera' node' other

theorem Apart.popUpstream {camera : Int} {relay relay' : Relay F} (apart : Apart camera relay relay') :
    Apart camera relay (relay'.popUpstream camera) where
  name := apart.name
  upstream camera' other := by
    rw [upstream?_popUpstream, if_neg other]
    exact apart.upstream camera' other
  tees := apart.tees

theorem Kept.sees {recorded : Recorded F} (kept : Kept recorded) {camera : Int} {change : Seen F → Seen F}
    {relay : Relay F} (apart : Apart camera recorded.relay relay)
    (here : Agrees relay camera (change (recorded.seen camera))) : Kept (recorded.sees camera change relay) := by
  intro camera'
  show Agrees relay camera' (Function.update recorded.seen camera (change (recorded.seen camera)) camera')
  rw [Function.update_apply]
  split
  next same =>
    rw [same]
    exact here
  next other =>
    exact (kept camera').congr apart.name (apart.upstream camera' (Ne.symm other))
      fun node => apart.tees camera' node (Ne.symm other)

/-! ## Opening -/

theorem open_ok {relay relay' : Relay F} {directory : Directory} {node token : String} {camera : Int}
    (opened : relay.open_ directory node camera token = .ok relay') :
    opens relay directory node camera token = true ∧ ∃ tee, relay.tee? node camera = some tee ∧
      relay' = relay.setTee node camera (tee.subscribe relay.gateway.name 30) := by
  obtain ⟨subject, admitted, rest⟩ := bind_eq_ok.mp opened
  cases found : relay.tee? node camera with
  | none =>
    rw [found] at rest
    cases rest
  | some tee =>
    rw [found] at rest
    cases rest
    refine ⟨?_, tee, rfl, rfl⟩
    simp only [opens, admitted, found]
    rfl

theorem open_of_opens {relay : Relay F} {directory : Directory} {node token : String} {camera : Int}
    (opens : opens relay directory node camera token = true) :
    ∃ relay', relay.open_ directory node camera token = .ok relay' := by
  simp only [GatewayViewers.opens, Bool.and_eq_true] at opens
  obtain ⟨tee, found⟩ := Option.isSome_iff_exists.mp opens.2
  cases admitted : directory.authorise node token camera with
  | error error =>
    rw [admitted] at opens
    cases opens.1
  | ok subject =>
    refine ⟨relay.setTee node camera (tee.subscribe relay.gateway.name 30), ?_⟩
    simp only [Relay.open_, admitted, found]
    rfl

@[simp] theorem get?_subscribe (tee : LiveTee F) (who : String) :
    (tee.subscribe who 30).subscribers.get? who = some ((tee.subscribers.get? who).getD (.new 30)) := by
  unfold LiveTee.subscribe
  cases found : tee.subscribers.get? who with
  | none => exact Dict.get?_set_self _ _ _
  | some queue => exact found

/-- A watch that is admitted joins the upstream on the node, or opens a new one there. -/
theorem watch_cases {relay relay' : Relay F} {directory : Directory} {camera : Int} {token viewer : String}
    {maxsize : Nat} (watched : relay.watch directory camera token viewer maxsize = .ok relay') :
    ∃ node, directory.where_ camera = some node ∧
      ((∃ up, relay.upstream? camera = some up ∧ up.node = node ∧
          relay' = relay.setUpstream camera { up with viewers := up.viewers.set viewer (.new maxsize) }) ∨
        ((∀ up, relay.upstream? camera = some up → up.node ≠ node) ∧ ∃ opened,
          relay.open_ directory node camera token = .ok opened ∧
          relay' = opened.setUpstream camera ⟨node, [(viewer, .new maxsize)]⟩)) := by
  unfold Relay.watch at watched
  cases at_ : directory.where_ camera with
  | none =>
    rw [at_] at watched
    cases watched
  | some node =>
    rw [at_] at watched
    obtain ⟨⟨up, opened⟩, joined, rest⟩ := bind_eq_ok.mp watched
    cases rest
    refine ⟨node, rfl, ?_⟩
    unfold Relay.joined at joined
    cases found : (relay.upstream? camera).filter (·.node = node) with
    | none =>
      rw [found] at joined
      obtain ⟨opened', opened_, rest⟩ := bind_eq_ok.mp joined
      cases rest
      refine .inr ⟨fun up upstream same => ?_, opened, opened_, rfl⟩
      rw [upstream, Option.filter_some, if_pos (by simpa using same)] at found
      cases found
    | some up' =>
      rw [found] at joined
      obtain ⟨subject, -, rest⟩ := bind_eq_ok.mp joined
      cases rest
      obtain ⟨upstream, same⟩ := Option.filter_eq_some_iff.mp found
      exact .inl ⟨up, upstream, by simpa using same, rfl⟩

/-- A reconnect that is admitted leaves the relay alone, or takes the upstream of the camera along. -/
theorem reconnect_cases {relay relay' : Relay F} {directory : Directory} {camera : Int} {token : String}
    {node? : Option String} (reconnected : relay.reconnect directory camera token = .ok (node?, relay')) :
    (relay' = relay ∧ ∀ up, relay.upstream? camera = some up → directory.where_ camera = some up.node) ∨
      ∃ up node opened, relay.upstream? camera = some up ∧ directory.where_ camera = some node ∧ node ≠ up.node ∧
        relay.open_ directory node camera token = .ok opened ∧
        relay' = opened.setUpstream camera ⟨node, up.viewers⟩ := by
  unfold Relay.reconnect at reconnected
  simp only at reconnected
  cases found : (relay.upstream? camera).filter fun up => some up.node ≠ directory.where_ camera with
  | none =>
    rw [found] at reconnected
    cases reconnected
    refine .inl ⟨rfl, fun up upstream => ?_⟩
    rw [upstream] at found
    by_contra other
    rw [Option.filter_some, if_pos (by simpa using Ne.symm other)] at found
    cases found
  | some up =>
    obtain ⟨upstream, other⟩ := Option.filter_eq_some_iff.mp found
    rw [found] at reconnected
    cases at_ : directory.where_ camera with
    | none =>
      rw [at_] at reconnected
      cases reconnected
    | some node =>
      rw [at_] at reconnected other
      obtain ⟨opened, opened_, rest⟩ := bind_eq_ok.mp reconnected
      cases rest
      have differs := of_decide_eq_true other
      exact .inr ⟨up, node, opened, upstream, rfl, fun same => differs (congrArg some same.symm), opened_, rfl⟩

/-! ## Each call -/

/-- What a viewer has of a queue, and what it is owed of a feed. -/
theorem Agrees.views {relay : Relay F} {camera : Int} {seen : Seen F} (agrees : Agrees relay camera seen)
    {up : Upstream F} (upstream : relay.upstream? camera = some up) (viewer : String) :
    (up.viewers.get? viewer).isSome = (seen.feeds.get? viewer).isSome ∧
      (up.viewers.pop viewer).isEmpty = (seen.feeds.pop viewer).isEmpty := by
  have same := (agrees.viewers up upstream).2
  constructor
  · have at_ := congrArg (fun dict => (Dict.get? dict viewer).isSome) same
    simpa only [Dict.get?_mapValues, Option.isSome_map] using at_
  · have left := congrArg (fun dict => (Dict.pop dict viewer).isEmpty) same
    simpa only [← Dict.mapValues_pop, Dict.isEmpty_mapValues] using left

theorem Agrees.reached {relay : Relay F} {camera : Int} {seen : Seen F} (agrees : Agrees relay camera seen)
    {up : Upstream F} (upstream : relay.upstream? camera = some up) : seen.node = some up.node := by
  rw [← agrees.node, upstream]
  rfl

/-- The viewers of the upstream change, and with them what is owed. -/
theorem Agrees.setUpstream {relay : Relay F} {camera : Int} {seen : Seen F} (agrees : Agrees relay camera seen)
    {up : Upstream F} (upstream : relay.upstream? camera = some up) {viewers : Dict (LeakyQueue F)}
    {feeds : Dict (Feed F)} (given : viewers ≠ [])
    (same : viewers.mapValues (fun vq => (vq.maxsize, vq.q)) =
      feeds.mapValues fun feed => (feed.maxsize, feed.offered.rtake feed.maxsize)) :
    Agrees (relay.setUpstream camera { up with viewers }) camera { seen with feeds } where
  node := by
    rw [upstream?_setUpstream, if_pos rfl]
    exact (agrees.reached upstream).symm
  viewers up' upstream' := by
    rw [upstream?_setUpstream, if_pos rfl] at upstream'
    obtain rfl := Option.some.inj upstream'
    exact ⟨given, same⟩
  idle none := by
    rw [upstream?_setUpstream, if_pos rfl] at none
    cases none
  tees := agrees.tees
  queue := agrees.queue

/-- The first viewer of a camera opens the subscription. -/
theorem Agrees.opens {relay : Relay F} {camera : Int} {seen : Seen F} (agrees : Agrees relay camera seen)
    (none : relay.upstream? camera = none) {node : String} {tee : LiveTee F} (found : relay.tee? node camera = some tee)
    (viewer : String) (maxsize : Nat) :
    Agrees ((relay.setTee node camera (tee.subscribe relay.gateway.name 30)).setUpstream camera
      ⟨node, [(viewer, .new maxsize)]⟩) camera ((seen.follows (some node)).joins viewer maxsize) := by
  have unreached : seen.node = Option.none := by rw [← agrees.node, none]; rfl
  have nobody (node' : String) (tee' : LiveTee F) (found' : relay.tee? node' camera = some tee') :
      tee'.subscribers.get? relay.gateway.name = Option.none := by
    refine Option.not_isSome_iff_eq_none.mp fun there => ?_
    have reached := (agrees.tees node' tee' found').mp there
    rw [unreached] at reached
    cases reached
  have follows : (seen.follows (some node)).joins viewer maxsize = ⟨some node, [], [(viewer, ⟨maxsize, []⟩)]⟩ := by
    have other : seen.node ≠ some node := by rw [unreached]; exact Option.some_ne_none node |>.symm
    simp only [Seen.follows, if_neg other, Seen.joins, agrees.idle none]
    rfl
  rw [follows]
  constructor
  · rw [upstream?_setUpstream, if_pos rfl]
    rfl
  · intro up upstream
    rw [upstream?_setUpstream, if_pos rfl] at upstream
    obtain rfl := Option.some.inj upstream
    exact ⟨List.cons_ne_nil _ _, by simp [Dict.mapValues, LeakyQueue.new]⟩
  · intro none
    rw [upstream?_setUpstream, if_pos rfl] at none
    cases none
  · intro node' tee' found'
    rw [tee?_setUpstream, tee?_setTee] at found'
    rw [name_setUpstream, name_setTee]
    split at found'
    next same =>
      obtain rfl := Option.some.inj found'
      rw [get?_subscribe]
      exact ⟨fun _ => congrArg some same.1.symm, fun _ => rfl⟩
    next other =>
      rw [nobody node' tee' found']
      exact ⟨fun there => (nomatch there), fun same => absurd ⟨(Option.some.inj same).symm, rfl⟩ other⟩
  · rintro node' ⟨⟩
    refine ⟨tee.subscribe relay.gateway.name 30, .new 30, ?_, ?_, rfl, rfl⟩
    · rw [tee?_setUpstream, tee?_setTee, if_pos ⟨rfl, rfl⟩]
    · rw [name_setUpstream, name_setTee, get?_subscribe, nobody node tee found]
      rfl

theorem Seen.follows_self {seen : Seen F} {node : Option String} (same : seen.node = node) : seen.follows node = seen :=
  if_pos same

theorem kept_watch {recorded : Recorded F} (kept : Kept recorded) {directory : Directory} {camera : Int}
    {token viewer : String} {maxsize : Nat} (stays : Stays recorded (.watch directory camera token viewer maxsize)) :
    Kept (watched recorded directory camera token viewer maxsize) := by
  unfold watched
  cases returned : recorded.relay.watch directory camera token viewer maxsize with
  | error error => exact kept
  | ok relay =>
    have agrees := kept camera
    obtain ⟨node, at_, ⟨up, upstream, rfl, rfl⟩ | ⟨other, opened, opened_, rfl⟩⟩ := watch_cases returned
    · refine kept.sees (.setUpstream (.refl _ _) _) ?_
      rw [Seen.follows_self ((agrees.reached upstream).trans at_.symm)]
      refine agrees.setUpstream upstream (Dict.set_ne_nil _ _ _) ?_
      rw [Dict.mapValues_set, Dict.mapValues_set, (agrees.viewers up upstream).2]
      simp only [LeakyQueue.new, List.rtake_nil]
    · obtain ⟨opens_, tee, found, rfl⟩ := open_ok opened_
      refine kept.sees (.setUpstream (.setTee (.refl _ _) _ _) _) ?_
      -- an upstream on another node would be taken along
      have none : recorded.relay.upstream? camera = none := by
        refine Option.eq_none_iff_forall_ne_some.mpr fun up upstream => ?_
        obtain same | refused := stays up upstream node at_
        · exact other up upstream same.symm
        · rw [opens_] at refused
          cases refused
      rw [at_]
      exact agrees.opens none found viewer maxsize

theorem kept_reconnect {recorded : Recorded F} (kept : Kept recorded) {directory : Directory} {camera : Int}
    {token : String} (stays : Stays recorded (.reconnect directory camera token)) :
    Kept (reconnected recorded directory camera token) := by
  unfold reconnected
  cases returned : recorded.relay.reconnect directory camera token with
  | error error => exact kept
  | ok answer =>
    obtain ⟨node?, relay⟩ := answer
    have agrees := kept camera
    obtain ⟨rfl, at_⟩ | ⟨up, node, opened, upstream, at_, other, opened_, rfl⟩ := reconnect_cases returned
    · refine kept.sees (.refl _ _) ?_
      cases upstream : recorded.relay.upstream? camera with
      | none =>
        have unreached : (recorded.seen camera).node = none := by rw [← agrees.node, upstream]; rfl
        rw [unreached]
        exact agrees
      | some up =>
        have reached := agrees.reached upstream
        rw [reached, Option.isSome_some, if_pos rfl, Seen.follows_self (reached.trans (at_ up upstream).symm)]
        exact agrees
    · obtain same | refused := stays up upstream node at_
      · exact absurd same other
      · rw [(open_ok opened_).1] at refused
        cases refused

/-- Nobody leaves, or one of several viewers, or the last. -/
theorem leave_cases {relay : Relay F} {camera : Int} {seen : Seen F} (agrees : Agrees relay camera seen)
    (viewer : String) :
    (relay.leave camera viewer).2 = relay ∧ seen.feeds.get? viewer = none ∨
      ∃ up, relay.upstream? camera = some up ∧
        ((relay.leave camera viewer).2 = relay.setUpstream camera { up with viewers := up.viewers.pop viewer } ∧
            (up.viewers.pop viewer).isEmpty = false ∨
          (up.viewers.pop viewer).isEmpty = true ∧ ∃ tee, relay.tee? up.node camera = some tee ∧
            (relay.leave camera viewer).2 =
              (relay.setTee up.node camera (tee.unsubscribe relay.gateway.name)).popUpstream camera) := by
  unfold Relay.leave
  cases upstream : relay.upstream? camera with
  | none =>
    refine .inl ⟨rfl, ?_⟩
    rw [agrees.idle upstream]
    rfl
  | some up =>
    cases found : up.viewers.get? viewer with
    | none =>
      simp only [found]
      refine .inl ⟨trivial, Option.isNone_iff_eq_none.mp ?_⟩
      have inside := (agrees.views upstream viewer).1
      rw [found] at inside
      rw [← Option.not_isSome, ← inside]
      rfl
    | some vq =>
      refine .inr ⟨up, rfl, ?_⟩
      cases empty : (up.viewers.pop viewer).isEmpty with
      | false =>
        simp only [found, empty]
        exact .inl ⟨rfl, trivial⟩
      | true =>
        obtain ⟨tee, queue, at_, -⟩ := agrees.queue up.node (agrees.reached upstream)
        simp only [found, empty, at_]
        exact .inr ⟨trivial, tee, rfl, rfl⟩

/-- The last viewer ends the subscription. -/
theorem Agrees.closes {relay : Relay F} {camera : Int} {seen : Seen F} (agrees : Agrees relay camera seen)
    {up : Upstream F} (upstream : relay.upstream? camera = some up) (tee : LiveTee F) :
    Agrees ((relay.setTee up.node camera (tee.unsubscribe relay.gateway.name)).popUpstream camera) camera
      ⟨none, [], []⟩ := by
  constructor
  · rw [upstream?_popUpstream, if_pos rfl]
    rfl
  · intro up' upstream'
    rw [upstream?_popUpstream, if_pos rfl] at upstream'
    cases upstream'
  · exact fun _ => rfl
  · intro node' tee' found'
    rw [tee?_popUpstream, tee?_setTee] at found'
    have unsubscribed : tee'.subscribers.get? relay.gateway.name = none := by
      split at found'
      next =>
        obtain rfl := Option.some.inj found'
        exact Dict.get?_pop_self _ _
      next other =>
        refine Option.not_isSome_iff_eq_none.mp fun there => other ?_
        have reached := (agrees.tees node' tee' found').mp there
        rw [agrees.reached upstream] at reached
        exact ⟨(Option.some.inj reached).symm, rfl⟩
    show (tee'.subscribers.get? relay.gateway.name).isSome ↔ _
    rw [unsubscribed]
    exact ⟨fun there => (nomatch there), fun same => (nomatch same)⟩
  · rintro node' ⟨⟩

theorem Agrees.nobody {relay : Relay F} {camera : Int} {seen : Seen F} (agrees : Agrees relay camera seen)
    (empty : seen.feeds = []) : Agrees relay camera ⟨none, [], []⟩ := by
  have upstream : relay.upstream? camera = none := by
    refine Option.eq_none_iff_forall_ne_some.mpr fun up upstream => ?_
    obtain ⟨given, same⟩ := agrees.viewers up upstream
    rw [empty] at same
    exact given (List.map_eq_nil_iff.mp same)
  have unreached : seen.node = none := by rw [← agrees.node, upstream]; rfl
  refine ⟨?_, ?_, fun _ => rfl, ?_, fun _ reached => by cases reached⟩
  · rw [upstream]
    rfl
  · intro up upstream'
    rw [upstream] at upstream'
    cases upstream'
  · rw [← unreached]
    exact agrees.tees

theorem kept_leave {recorded : Recorded F} (kept : Kept recorded) (camera : Int) (viewer : String) :
    Kept (recorded.sees camera (·.leaves viewer) (recorded.relay.leave camera viewer).2) := by
  have agrees := kept camera
  obtain ⟨left, absent⟩ | ⟨up, upstream, ⟨left, others⟩ | ⟨last, tee, -, left⟩⟩ := leave_cases agrees viewer
  · rw [left]
    refine kept.sees (.refl _ _) ?_
    have same := Dict.pop_of_absent absent
    unfold Seen.leaves
    rw [same]
    cases empty : (recorded.seen camera).feeds.isEmpty with
    | true => exact agrees.nobody (List.isEmpty_iff.mp empty)
    | false => exact agrees
  · rw [left]
    refine kept.sees (.setUpstream (.refl _ _) _) ?_
    have more : ((recorded.seen camera).feeds.pop viewer).isEmpty = false := by
      rw [← (agrees.views upstream viewer).2, others]
    simp only [Seen.leaves, more]
    refine agrees.setUpstream upstream ?_ ?_
    · intro empty
      rw [empty] at others
      cases others
    · rw [Dict.mapValues_pop, Dict.mapValues_pop, (agrees.viewers up upstream).2]
  · rw [left]
    refine kept.sees (.popUpstream (.setTee (.refl _ _) _ _)) ?_
    have none : ((recorded.seen camera).feeds.pop viewer).isEmpty = true := by
      rw [← (agrees.views upstream viewer).2, last]
    simp only [Seen.leaves, none]
    exact agrees.closes upstream tee

/-- The tee of a node changes, but not who is subscribed to it. -/
theorem Agrees.setTee {relay : Relay F} {camera : Int} {seen : Seen F} (agrees : Agrees relay camera seen)
    {node : String} {tee tee' : LiveTee F} (found : relay.tee? node camera = some tee)
    (same : (tee'.subscribers.get? relay.gateway.name).isSome = (tee.subscribers.get? relay.gateway.name).isSome)
    {seen' : Seen F} (follows : seen'.node = seen.node) (feeds : seen'.feeds = seen.feeds)
    (queue : seen.node = some node → ∀ queue, tee.subscribers.get? relay.gateway.name = some queue →
      queue.maxsize = 30 → queue.q = seen.waiting.rtake 30 →
      ∃ queue', tee'.subscribers.get? relay.gateway.name = some queue' ∧ queue'.maxsize = 30 ∧
        queue'.q = seen'.waiting.rtake 30)
    (waiting : seen.node ≠ some node → seen'.waiting = seen.waiting) :
    Agrees (relay.setTee node camera tee') camera seen' where
  node := by
    rw [follows]
    exact agrees.node
  viewers := by
    rw [feeds]
    exact agrees.viewers
  idle := by
    rw [feeds]
    exact agrees.idle
  tees node' tee'' found' := by
    rw [tee?_setTee] at found'
    rw [name_setTee, follows]
    split at found'
    next here =>
      obtain rfl := Option.some.inj found'
      rw [same, here.1]
      exact agrees.tees node tee found
    next => exact agrees.tees node' tee'' found'
  queue node' reached := by
    rw [follows] at reached
    obtain ⟨tee'', queue', found', subscribed, size, q⟩ := agrees.queue node' reached
    rw [name_setTee]
    by_cases here : node' = node
    · subst here
      obtain rfl := Option.some.inj (found.symm.trans found')
      obtain ⟨queue'', pushed⟩ := queue reached queue' subscribed size q
      exact ⟨tee', queue'', by rw [tee?_setTee, if_pos ⟨rfl, rfl⟩], pushed⟩
    · refine ⟨tee'', queue', ?_, subscribed, size, ?_⟩
      · rw [tee?_setTee, if_neg fun same => here same.1]
        exact found'
      · rw [waiting fun same => here (Option.some.inj (reached.symm.trans same))]
        exact q

theorem kept_push {recorded : Recorded F} (kept : Kept recorded) (node : String) (camera : Int) (frame : F) :
    Kept (recorded.sees camera (·.pushed node frame) (recorded.relay.push node camera frame)) := by
  have agrees := kept camera
  unfold Relay.push
  cases found : recorded.relay.tee? node camera with
  | none =>
    refine kept.sees (.refl _ _) ?_
    have elsewhere : (recorded.seen camera).node ≠ some node := by
      intro reached
      obtain ⟨tee, queue, there, -⟩ := agrees.queue node reached
      rw [found] at there
      cases there
    rw [Seen.pushed, if_neg elsewhere]
    exact agrees
  | some tee =>
    refine kept.sees (.setTee (.refl _ _) _ _) ?_
    refine agrees.setTee found ?_ ?_ ?_ ?_ ?_
    · simp only [LiveTee.push, Dict.get?_mapValues, Option.isSome_map]
    · unfold Seen.pushed
      split <;> rfl
    · unfold Seen.pushed
      split <;> rfl
    · intro reached queue subscribed size q
      refine ⟨queue.push frame, ?_, size, ?_⟩
      · simp only [LiveTee.push, Dict.get?_mapValues, subscribed, Option.map_some]
      · rw [Seen.pushed, if_pos reached]
        simp only [LeakyQueue.push]
        rw [q, size, rtake_append_rtake]
    · intro elsewhere
      rw [Seen.pushed, if_neg elsewhere]

theorem kept_drain {recorded : Recorded F} (kept : Kept recorded) (camera : Int) (viewer : String) :
    Kept (recorded.sees camera (·.drained viewer) (recorded.relay.drain camera viewer)) := by
  have agrees := kept camera
  unfold Relay.drain
  cases upstream : recorded.relay.upstream? camera with
  | none =>
    refine kept.sees (.refl _ _) ?_
    rw [Seen.drained, agrees.idle upstream]
    exact agrees
  | some up =>
    have same := (agrees.viewers up upstream).2
    have views := congrArg (·.get? viewer) same
    simp only [Dict.get?_mapValues] at views
    unfold Seen.drained
    cases owed : (recorded.seen camera).feeds.get? viewer with
    | none =>
      rw [owed, Option.map_none, Option.map_eq_none_iff] at views
      simp only [views]
      refine kept.sees (.refl _ _) ?_
      simp only [owed]
      exact agrees
    | some feed =>
      rw [owed, Option.map_some] at views
      obtain ⟨vq, found, view⟩ := Option.map_eq_some_iff.mp views
      simp only [found]
      refine kept.sees (.setUpstream (.refl _ _) _) ?_
      simp only [owed]
      refine agrees.setUpstream upstream (Dict.set_ne_nil _ _ _) ?_
      rw [Dict.mapValues_set, Dict.mapValues_set, same]
      simp only [LeakyQueue.drained, List.rtake_nil, (Prod.mk.inj view).1]

/-! ## Pumping -/

/-- The frames that are handed on go to each viewer, and are owed to each. -/
theorem views_pumped {viewers : Dict (LeakyQueue F)} {feeds : Dict (Feed F)}
    (same : viewers.mapValues (fun vq => (vq.maxsize, vq.q)) =
      feeds.mapValues fun feed => (feed.maxsize, feed.offered.rtake feed.maxsize)) (frames : List F) :
    (viewers.mapValues fun vq => frames.foldl (fun vq frame => vq.push frame) vq).mapValues
        (fun vq => (vq.maxsize, vq.q)) =
      (feeds.mapValues fun feed => { feed with offered := feed.offered ++ frames }).mapValues
        fun feed => (feed.maxsize, feed.offered.rtake feed.maxsize) := by
  let handed (view : Nat × List F) : Nat × List F := (view.1, (view.2 ++ frames).rtake view.1)
  have twice {α β γ : Type} (f : α → β) (g : β → γ) (dict : Dict α) :
      (dict.mapValues f).mapValues g = dict.mapValues fun value => g (f value) := by
    simp only [Dict.mapValues, List.map_map]
    rfl
  have queues : (viewers.mapValues fun vq => frames.foldl (fun vq frame => vq.push frame) vq).mapValues
      (fun vq => (vq.maxsize, vq.q)) = (viewers.mapValues fun vq => (vq.maxsize, vq.q)).mapValues handed := by
    rw [twice, twice]
    refine List.map_congr_left fun entry inside => ?_
    obtain ⟨key, vq⟩ := entry
    -- a queue that holds what it is owed is within its bound
    have viewed : (key, (vq.maxsize, vq.q)) ∈ feeds.mapValues fun feed =>
        (feed.maxsize, feed.offered.rtake feed.maxsize) := by
      rw [← same]
      exact List.mem_map_of_mem (f := fun entry => (entry.1, (entry.2.maxsize, entry.2.q))) inside
    obtain ⟨⟨key', feed⟩, -, view⟩ := List.mem_map.mp viewed
    have size : feed.maxsize = vq.maxsize := congrArg (fun entry => entry.2.1) view
    have q : feed.offered.rtake feed.maxsize = vq.q := congrArg (fun entry => entry.2.2) view
    have bounded : vq.q.rtake vq.maxsize = vq.q := by
      have again := rtake_append_rtake feed.maxsize feed.offered []
      rw [List.append_nil, List.append_nil, q, size] at again
      exact again
    obtain ⟨size', q'⟩ := foldl_push frames vq bounded
    simp only [handed, size', q']
  rw [queues, same, twice, twice]
  simp only [handed, rtake_append_rtake]

theorem apart_pumpCamera (relay : Relay F) (camera : Int) : Apart camera relay (relay.pumpCamera camera) := by
  unfold Relay.pumpCamera
  split
  next => exact .refl _ _
  next =>
    split
    next => exact .refl _ _
    next =>
      split
      next => exact .refl _ _
      next => exact .setUpstream (.setTee (.refl _ _) _ _) _

theorem Agrees.pumpCamera {relay : Relay F} {camera : Int} {seen : Seen F} (agrees : Agrees relay camera seen) :
    Agrees (relay.pumpCamera camera) camera seen.pumped := by
  unfold Relay.pumpCamera
  cases upstream : relay.upstream? camera with
  | none =>
    have unreached : seen.node = none := by rw [← agrees.node, upstream]; rfl
    refine ⟨agrees.node, ?_, fun _ => ?_, agrees.tees, fun node reached => ?_⟩
    · intro up upstream'
      rw [upstream] at upstream'
      cases upstream'
    · simp only [Seen.pumped, agrees.idle upstream]
      rfl
    · rw [Seen.pumped, unreached] at reached
      cases reached
  | some up =>
    have reached := agrees.reached upstream
    obtain ⟨tee, queue, found, subscribed, size, q⟩ := agrees.queue up.node reached
    obtain ⟨given, same⟩ := agrees.viewers up upstream
    simp only [found, subscribed]
    have drained : Agrees (relay.setTee up.node camera
        { tee with subscribers := tee.subscribers.set relay.gateway.name queue.drained }) camera
        { seen with waiting := [] } := by
      refine agrees.setTee found ?_ rfl rfl (fun _ queue' subscribed' _ _ => ?_) fun elsewhere => ?_
      · rw [Dict.get?_set_self, subscribed]
        rfl
      · exact ⟨queue.drained, Dict.get?_set_self _ _ _, size, rfl⟩
      · exact absurd reached elsewhere
    refine @Agrees.setUpstream _ _ _ _ drained up upstream _ _ ?_ ?_
    · intro empty
      exact given (List.map_eq_nil_iff.mp empty)
    · rw [q]
      exact views_pumped same _

theorem Seen.pumped_pumped (seen : Seen F) : seen.pumped.pumped = seen.pumped := by
  simp [Seen.pumped, Dict.mapValues, List.map_map, Function.comp_def]

theorem Agrees.foldl_pumpCamera {camera : Int} (cameras : List Int) :
    ∀ {relay : Relay F} {seen : Seen F}, Agrees relay camera seen →
      Agrees (cameras.foldl Relay.pumpCamera relay) camera (if camera ∈ cameras then seen.pumped else seen) := by
  induction cameras with
  | nil => exact fun agrees => agrees
  | cons first rest ih =>
    intro relay seen agrees
    by_cases here : first = camera
    · subst here
      rw [if_pos List.mem_cons_self]
      have later := ih agrees.pumpCamera
      rw [Seen.pumped_pumped, ite_self] at later
      exact later
    · have apart := apart_pumpCamera relay first
      have later := ih (agrees.congr apart.name (apart.upstream camera here) fun node => apart.tees camera node here)
      simpa [Ne.symm here] using later

theorem kept_pump {recorded : Recorded F} (kept : Kept recorded) :
    Kept ⟨recorded.relay.pump, fun camera => (recorded.seen camera).pumped⟩ := by
  intro camera
  have pumped := (kept camera).foldl_pumpCamera recorded.relay.gateway.upstreams.keys
  split at pumped
  next => exact pumped
  next absent =>
    have upstream : recorded.relay.pump.upstream? camera = none := by
      have node := pumped.node
      rw [← (kept camera).node, show recorded.relay.upstream? camera = none from Table.get?_eq_none.mpr absent] at node
      exact Option.map_eq_none_iff.mp node
    have idle : recorded.relay.pump.pumpCamera camera = recorded.relay.pump := by
      unfold Relay.pumpCamera
      rw [upstream]
    rw [← idle]
    exact pumped.pumpCamera

/-! ## Runs -/

theorem Kept.step {recorded : Recorded F} (kept : Kept recorded) {event : Event F} (stays : Stays recorded event) :
    Kept (step recorded event) := by
  cases event with
  | watch directory camera token viewer maxsize => exact kept_watch kept stays
  | leave camera viewer => exact kept_leave kept camera viewer
  | pump => exact kept_pump kept
  | reconnect directory camera token => exact kept_reconnect kept stays
  | push node camera frame => exact kept_push kept node camera frame
  | drain camera viewer => exact kept_drain kept camera viewer

theorem kept_start {name : String} {endpoint : String → Table (LiveTee F)}
    (fresh : ∀ node camera tee, (endpoint node).get? camera = some tee → tee.subscribers.get? name = none) :
    Kept (start name endpoint) := fun camera =>
  { node := rfl
    viewers := fun _ none => nomatch none
    idle := fun _ => rfl
    tees := fun node tee found => by
      have unsubscribed : tee.subscribers.get? (start name endpoint).relay.gateway.name = none :=
        fresh node camera tee found
      rw [unsubscribed]
      exact ⟨fun there => (nomatch there), fun same => (nomatch same)⟩
    queue := fun _ reached => nomatch reached }

/-- The subscription that is left behind at the old node. -/
theorem not_serves_moved {recorded : Recorded F} (kept : Kept recorded) {camera : Int} {up : Upstream F}
    (upstream : recorded.relay.upstream? camera = some up) {node : String} (other : node ≠ up.node)
    {directory : Directory} {token : String} {opened : Relay F}
    (opened_ : recorded.relay.open_ directory node camera token = .ok opened) (viewers : Dict (LeakyQueue F))
    (change : Seen F → Seen F) :
    ¬ Serves (recorded.sees camera change (opened.setUpstream camera ⟨node, viewers⟩)) := by
  intro serves
  obtain ⟨-, tee, -, rfl⟩ := open_ok opened_
  obtain ⟨tee', queue, found, subscribed, -⟩ := (kept camera).queue up.node ((kept camera).reached upstream)
  have still : ((recorded.relay.setTee node camera (tee.subscribe recorded.relay.gateway.name 30)).setUpstream camera
      ⟨node, viewers⟩).tee? up.node camera = some tee' := by
    rw [tee?_setUpstream, tee?_setTee, if_neg fun same => other same.1.symm]
    exact found
  obtain ⟨up', upstream', at_, -⟩ := (serves.subscribed camera up.node tee' still).mp (by
    show (tee'.subscribers.get? recorded.relay.gateway.name).isSome = true
    rw [subscribed]
    rfl)
  have moved : some (⟨node, viewers⟩ : Upstream F) = some up' := by
    rw [← upstream']
    exact (if_pos rfl).symm.trans (upstream?_setUpstream _ _ _ _).symm
  rw [← Option.some.inj moved] at at_
  exact other at_

theorem watch_of_open {relay opened : Relay F} {directory : Directory} {camera : Int} {node token : String}
    {up : Upstream F} (upstream : relay.upstream? camera = some up) (at_ : directory.where_ camera = some node)
    (other : node ≠ up.node) (opened_ : relay.open_ directory node camera token = .ok opened) (viewer : String)
    (maxsize : Nat) :
    relay.watch directory camera token viewer maxsize =
      .ok (opened.setUpstream camera ⟨node, [(viewer, .new maxsize)]⟩) := by
  have elsewhere : (relay.upstream? camera).filter (·.node = node) = none := by
    rw [upstream, Option.filter_some, if_neg (by simpa using Ne.symm other)]
  have joined : relay.joined directory node camera token = .ok (⟨node, []⟩, opened) := by
    unfold Relay.joined
    rw [elsewhere, opened_]
    rfl
  unfold Relay.watch
  rw [at_]
  show (relay.joined directory node camera token >>= _) = _
  rw [joined]
  rfl

theorem reconnect_of_open {relay opened : Relay F} {directory : Directory} {camera : Int} {node token : String}
    {up : Upstream F} (upstream : relay.upstream? camera = some up) (at_ : directory.where_ camera = some node)
    (other : node ≠ up.node) (opened_ : relay.open_ directory node camera token = .ok opened) :
    relay.reconnect directory camera token = .ok (some node, opened.setUpstream camera ⟨node, up.viewers⟩) := by
  have elsewhere : (relay.upstream? camera).filter (fun up => some up.node ≠ some node) = some up := by
    have differs : some up.node ≠ some node := fun same => other (Option.some.inj same).symm
    rw [upstream, Option.filter_some, if_pos (decide_eq_true differs)]
  unfold Relay.reconnect
  simp only [at_]
  rw [elsewhere]
  show (relay.open_ directory node camera token >>= _) = _
  rw [opened_]
  rfl

theorem not_serves_step {recorded : Recorded F} (kept : Kept recorded) {event : Event F}
    (moves : ¬ Stays recorded event) : ¬ Serves (step recorded event) := by
  have moved {directory : Directory} {camera : Int} {token : String}
      (moves : ¬ ∀ up ∈ recorded.relay.upstream? camera, ∀ node ∈ directory.where_ camera,
        node = up.node ∨ opens recorded.relay directory node camera token = false) :
      ∃ up node opened, recorded.relay.upstream? camera = some up ∧ directory.where_ camera = some node ∧
        node ≠ up.node ∧ recorded.relay.open_ directory node camera token = .ok opened := by
    push Not at moves
    obtain ⟨up, upstream, node, at_, other, admitted⟩ := moves
    obtain ⟨opened, opened_⟩ := open_of_opens (by simpa using admitted)
    exact ⟨up, node, opened, upstream, at_, other, opened_⟩
  cases event with
  | watch directory camera token viewer maxsize =>
    obtain ⟨up, node, opened, upstream, at_, other, opened_⟩ := moved moves
    show ¬ Serves (watched recorded directory camera token viewer maxsize)
    unfold watched
    rw [watch_of_open upstream at_ other opened_]
    exact not_serves_moved kept upstream other opened_ _ _
  | reconnect directory camera token =>
    obtain ⟨up, node, opened, upstream, at_, other, opened_⟩ := moved moves
    show ¬ Serves (reconnected recorded directory camera token)
    unfold reconnected
    rw [reconnect_of_open upstream at_ other opened_]
    exact not_serves_moved kept upstream other opened_ _ _
  | leave camera viewer => exact absurd trivial moves
  | pump => exact absurd trivial moves
  | push node camera frame => exact absurd trivial moves
  | drain camera viewer => exact absurd trivial moves

/-- The gateway serves its viewers at every moment of a run exactly when no watch and no reconnect is
admitted at another node than the one where the camera's upstream is. -/
theorem serves_iff_stays {name : String} {endpoint : String → Table (LiveTee F)}
    (fresh : ∀ node camera tee, (endpoint node).get? camera = some tee → tee.subscribers.get? name = none)
    (events : List (Event F)) :
    (∀ first, first <+: events → Serves (first.foldl step (start name endpoint))) ↔
      Along step Stays events (start name endpoint) :=
  @always_iff_while _ _ step Stays Kept Serves (fun _ => Kept.serves) (fun _ _ stays kept => kept.step stays)
    (fun _ _ moves kept => not_serves_step kept moves) events _ (kept_start fresh)

/-- Two nodes with camera 7, which is on `home`. -/
def homes (home : String) : Directory := ⟨fun _ => some home, fun _ _ _ => .ok "alice"⟩

def tees (node : String) : Table (LiveTee Nat) :=
  if node = "node-4" ∨ node = "node-5" then [(7, .new)] else []

/-- A second viewer is the first to find the failover. -/
def failover : List (Event Nat) :=
  [.watch (homes "node-4") 7 "t" "b1" 30, .push "node-4" 7 1, .pump, .watch (homes "node-5") 7 "t" "b2" 30]

theorem tees_fresh : ∀ node camera tee, (tees node).get? camera = some tee → tee.subscribers.get? "gw" = none := by
  intro node camera tee found
  unfold tees at found
  split at found
  next =>
    rw [Table.get?_cons] at found
    split at found
    next => cases found; rfl
    next => cases found
  next => cases found

theorem serves_iff_stays_failover :
    (∀ node camera tee, (tees node).get? camera = some tee → tee.subscribers.get? "gw" = none) ∧
      ((∀ first, first <+: failover → Serves (first.foldl step (start "gw" tees))) ↔
        Along step Stays failover (start "gw" tees)) :=
  ⟨tees_fresh, serves_iff_stays tees_fresh failover⟩

/-- The first viewer is lost by it. -/
theorem failover_loses_viewer :
    ∃ events, ¬ ∀ first, first <+: events → Serves (first.foldl step (start "gw" tees)) := by
  refine ⟨failover, fun all => ?_⟩
  have serves := all failover (List.prefix_refl _)
  have watching : ((failover.foldl step (start "gw" tees)).seen 7).feeds.get? "b1" = some ⟨30, [1]⟩ := by decide +kernel
  obtain ⟨up, vq, upstream, found, -⟩ := serves.seated 7 "b1" ⟨30, [1]⟩ watching
  have gone : ((failover.foldl step (start "gw" tees)).relay.upstream? 7).bind (·.viewers.get? "b1") = none := by
    decide +kernel
  rw [upstream, Option.bind_some, found] at gone
  cases gone

end EdgeVms.Verified.GatewayViewers
