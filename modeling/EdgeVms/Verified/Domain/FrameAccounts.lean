import EdgeVms.Verified.Domain.GatewayViewers

/-! # The accounts of the live queues

`Recorded` keeps a book beside the gateway: what was put into each queue since it is
there, and what was drained from it.  The queue of a camera at its tee and the queues
of the viewers are settled against the same kind of account.
-/

namespace EdgeVms.Verified.FrameAccounts

open Process Python Domain
open GatewayViewers (Apart open_ok get?_subscribe watch_cases apart_pumpCamera homes tees tees_fresh)

variable {F : Type}

/-! ## Accounts -/

/-- What was put into a queue since it is there, and what was drained from it. -/
structure Account (F : Type) where
  given : List F
  taken : List F

namespace Account

def new : Account F := ⟨[], []⟩

def gives (frames : List F) (account : Account F) : Account F := { account with given := account.given ++ frames }

def takes (frames : List F) (account : Account F) : Account F := { account with taken := account.taken ++ frames }

/-- Each frame was drained, is queued or was dropped, and those that were not dropped are in their order. -/
structure Settles (account : Account F) (queue : LeakyQueue F) : Prop where
  bounded : queue.q.length ≤ queue.maxsize
  counts : account.taken.length + queue.q.length + queue.dropped = account.given.length
  order : (account.taken ++ queue.q).Sublist account.given

theorem settles_new (maxsize : Nat) : (new : Account F).Settles (.new maxsize) :=
  ⟨Nat.zero_le _, rfl, .slnil⟩

variable {account : Account F} {queue : LeakyQueue F}

theorem Settles.push (settles : account.Settles queue) (frame : F) :
    (account.gives [frame]).Settles (queue.push frame) := by
  have bounded := settles.bounded
  have counts := settles.counts
  have length : (queue.push frame).q.length = min queue.maxsize (queue.q.length + 1) := by
    simp only [LeakyQueue.push, List.rtake, List.length_drop, List.length_append, List.length_singleton]
    omega
  refine ⟨?_, ?_, ?_⟩
  · rw [length]
    exact Nat.min_le_left _ _
  · rw [length]
    simp only [gives, LeakyQueue.push, List.length_append, List.length_singleton]
    -- the frame that a full queue loses is counted
    split <;> omega
  · have kept : (queue.push frame).q.Sublist (queue.q ++ [frame]) := List.drop_sublist _ _
    have later := settles.order.append (.refl [frame])
    rw [List.append_assoc] at later
    exact ((List.Sublist.refl _).append kept).trans later

theorem Settles.pushes (settles : account.Settles queue) (frames : List F) :
    (account.gives frames).Settles (frames.foldl (fun vq frame => vq.push frame) queue) := by
  induction frames generalizing account queue with
  | nil =>
    have nothing : account.gives [] = account := by simp [gives]
    rw [nothing]
    exact settles
  | cons frame rest ih =>
    have later := ih (settles.push frame)
    have both : (account.gives [frame]).gives rest = account.gives (frame :: rest) := by simp [gives]
    rw [both] at later
    exact later

theorem Settles.drained (settles : account.Settles queue) : (account.takes queue.q).Settles queue.drained := by
  refine ⟨Nat.zero_le _, ?_, ?_⟩
  · have counts := settles.counts
    simp only [takes, LeakyQueue.drained, List.length_append, List.length_nil]
    omega
  · simp only [takes, LeakyQueue.drained, List.append_nil]
    exact settles.order

end Account

/-! ## The books -/

/-- The accounts of a camera: of the queue at the tee, and of each viewer that joined. -/
structure Book (F : Type) where
  upstream : Account F
  viewers : String → Account F

namespace Book

def new : Book F := ⟨.new, fun _ => .new⟩

def joins (viewer : String) (book : Book F) : Book F :=
  { book with viewers := Function.update book.viewers viewer .new }

def pushes (frame : F) (book : Book F) : Book F := { book with upstream := book.upstream.gives [frame] }

def pumps (frames : List F) (book : Book F) : Book F :=
  ⟨book.upstream.takes frames, fun viewer => (book.viewers viewer).gives frames⟩

def drains (viewer : String) (frames : List F) (book : Book F) : Book F :=
  { book with viewers := Function.update book.viewers viewer ((book.viewers viewer).takes frames) }

theorem pumps_nil (book : Book F) : book.pumps [] = book := by simp [pumps, Account.takes, Account.gives]

end Book

section Queues

variable (relay : Relay F) (camera : Int)

/-- The queue that the gateway has at the tee of a camera. -/
def queue? : Option (LeakyQueue F) :=
  (relay.upstream? camera).bind fun up => (relay.tee? up.node camera).bind fun tee =>
    tee.subscribers.get? relay.gateway.name

def viewer? (viewer : String) : Option (LeakyQueue F) :=
  (relay.upstream? camera).bind fun up => up.viewers.get? viewer

end Queues

/-- What a drain returns. -/
def frames (queue : Option (LeakyQueue F)) : List F := (queue.map LeakyQueue.q).getD []

inductive Event (F : Type) where
  | watch (directory : Directory) (camera : Int) (token viewer : String) (maxsize : Nat)
  | leave (camera : Int) (viewer : String)
  | pump
  | push (node : String) (camera : Int) (frame : F)
  | drain (camera : Int) (viewer : String)

/-- What the gateway, the tees and the viewers do. -/
def act (relay : Relay F) : Event F → Relay F
  | .watch directory camera token viewer maxsize =>
    match relay.watch directory camera token viewer maxsize with
    | .error _ => relay
    | .ok relay => relay
  | .leave camera viewer => (relay.leave camera viewer).2
  | .pump => relay.pump
  | .push node camera frame => relay.push node camera frame
  | .drain camera viewer => relay.drain camera viewer

structure Recorded (F : Type) where
  relay : Relay F
  books : Int → Book F

/-- The entry of an event into the books. -/
def enter (recorded : Recorded F) : Event F → Int → Book F
  | .watch directory camera token viewer maxsize =>
    match recorded.relay.watch directory camera token viewer maxsize with
    | .error _ => recorded.books
    | .ok _ =>
      -- a subscription that is new has a new account
      let book :=
        if (recorded.relay.upstream? camera).map Upstream.node = directory.where_ camera then recorded.books camera
        else .new
      Function.update recorded.books camera (book.joins viewer)
  | .leave _ _ => recorded.books
  | .pump => fun camera => (recorded.books camera).pumps (frames (queue? recorded.relay camera))
  | .push node camera frame =>
    if (recorded.relay.upstream? camera).map Upstream.node = some node then
      Function.update recorded.books camera ((recorded.books camera).pushes frame)
    else recorded.books
  | .drain camera viewer =>
    Function.update recorded.books camera
      ((recorded.books camera).drains viewer (frames (viewer? recorded.relay camera viewer)))

def step (recorded : Recorded F) (event : Event F) : Recorded F := ⟨act recorded.relay event, enter recorded event⟩

/-- A new gateway before the tees of the nodes. -/
def start (name : String) (endpoint : String → Table (LiveTee F)) : Recorded F :=
  ⟨⟨⟨name, []⟩, endpoint⟩, fun _ => .new⟩

/-- No watch finds the camera on another node than the one where its upstream is. -/
def Stays (recorded : Recorded F) : Event F → Prop
  | .watch directory camera _ _ _ =>
    ∀ up ∈ recorded.relay.upstream? camera, ∀ node ∈ directory.where_ camera, node = up.node
  | _ => True

instance (recorded : Recorded F) : (event : Event F) → Decidable (Stays recorded event)
  | .watch directory camera _ _ _ =>
    inferInstanceAs (Decidable
      (∀ up ∈ recorded.relay.upstream? camera, ∀ node ∈ directory.where_ camera, node = up.node))
  | .leave _ _ => .isTrue trivial
  | .pump => .isTrue trivial
  | .push _ _ _ => .isTrue trivial
  | .drain _ _ => .isTrue trivial

/-- Every queue is settled, and what a viewer drained are frames of its camera, in their order. -/
structure Balanced (recorded : Recorded F) : Prop where
  upstream : ∀ camera up, recorded.relay.upstream? camera = some up →
    ∃ queue, queue? recorded.relay camera = some queue ∧ (recorded.books camera).upstream.Settles queue
  viewers : ∀ camera viewer vq, viewer? recorded.relay camera viewer = some vq →
    ((recorded.books camera).viewers viewer).Settles vq
  order : ∀ camera viewer vq, viewer? recorded.relay camera viewer = some vq →
    ((recorded.books camera).viewers viewer).taken.Sublist (recorded.books camera).upstream.given
  once : ∀ camera viewer vq, viewer? recorded.relay camera viewer = some vq →
    (recorded.books camera).upstream.given.Nodup → ((recorded.books camera).viewers viewer).taken.Nodup

/-! ## The invariant -/

/-- The gateway's name is at the tee of its upstream, with a queue that is settled, and at no other. -/
structure Subscribed (relay : Relay F) (camera : Int) (account : Account F) : Prop where
  queue : ∀ node, (relay.upstream? camera).map Upstream.node = some node → ∃ tee queue,
    relay.tee? node camera = some tee ∧ tee.subscribers.get? relay.gateway.name = some queue ∧ account.Settles queue
  elsewhere : ∀ node tee, relay.tee? node camera = some tee →
    (relay.upstream? camera).map Upstream.node ≠ some node → tee.subscribers.get? relay.gateway.name = none

/-- A viewer was given what has been pumped since it joined. -/
def Seated (viewers : Dict (LeakyQueue F)) (book : Book F) : Prop :=
  ∀ viewer vq, viewers.get? viewer = some vq →
    (book.viewers viewer).Settles vq ∧ (book.viewers viewer).given <:+ book.upstream.taken

structure Agrees (relay : Relay F) (camera : Int) (book : Book F) : Prop where
  subscribed : Subscribed relay camera book.upstream
  seated : ∀ up, relay.upstream? camera = some up → Seated up.viewers book

/-- A camera is as it was if its upstream and its tees are. -/
theorem Agrees.congr {relay relay' : Relay F} {camera camera' : Int} {book : Book F} (agrees : Agrees relay camera book)
    (apart : Apart camera' relay relay') (other : camera' ≠ camera) : Agrees relay' camera book := by
  have upstream := apart.upstream camera other
  have tees := fun node => apart.tees camera node other
  refine ⟨⟨?_, ?_⟩, ?_⟩
  · rw [upstream]
    simp only [tees, apart.name]
    exact agrees.subscribed.queue
  · rw [upstream]
    simp only [tees, apart.name]
    exact agrees.subscribed.elsewhere
  · rw [upstream]
    exact agrees.seated

def Kept (recorded : Recorded F) : Prop := ∀ camera, Agrees recorded.relay camera (recorded.books camera)

theorem Agrees.queue? {relay : Relay F} {camera : Int} {book : Book F} (agrees : Agrees relay camera book)
    {up : Upstream F} (upstream : relay.upstream? camera = some up) :
    ∃ queue, queue? relay camera = some queue ∧ book.upstream.Settles queue := by
  obtain ⟨tee, queue, found, subscribed, settles⟩ := agrees.subscribed.queue up.node (by rw [upstream]; rfl)
  refine ⟨queue, ?_, settles⟩
  unfold FrameAccounts.queue?
  rw [upstream, Option.bind_some, found, Option.bind_some, subscribed]

theorem Kept.balanced {recorded : Recorded F} (kept : Kept recorded) : Balanced recorded := by
  have viewers (camera : Int) (viewer : String) (vq : LeakyQueue F)
      (watching : viewer? recorded.relay camera viewer = some vq) :
      ((recorded.books camera).viewers viewer).Settles vq ∧
        ((recorded.books camera).viewers viewer).taken.Sublist (recorded.books camera).upstream.given := by
    obtain ⟨up, upstream, found⟩ := Option.bind_eq_some_iff.mp watching
    obtain ⟨settles, handed⟩ := (kept camera).seated up upstream viewer vq found
    obtain ⟨queue, -, account⟩ := (kept camera).queue? upstream
    refine ⟨settles, ?_⟩
    have drained := (List.sublist_append_left _ vq.q).trans settles.order
    have pumped := (List.sublist_append_left _ queue.q).trans account.order
    exact (drained.trans handed.sublist).trans pumped
  exact
    { upstream := fun camera up upstream => (kept camera).queue? upstream
      viewers := fun camera viewer vq watching => (viewers camera viewer vq watching).1
      order := fun camera viewer vq watching => (viewers camera viewer vq watching).2
      once := fun camera viewer vq watching distinct => distinct.sublist (viewers camera viewer vq watching).2 }

/-- An event that is about one camera. -/
theorem Kept.at_camera {relay relay' : Relay F} {books : Int → Book F} (kept : Kept ⟨relay, books⟩) {camera : Int}
    (apart : Apart camera relay relay') {book : Book F} (here : Agrees relay' camera book) :
    Kept ⟨relay', Function.update books camera book⟩ := by
  intro camera'
  show Agrees relay' camera' (Function.update books camera book camera')
  rw [Function.update_apply]
  split
  next same =>
    rw [same]
    exact here
  next other => exact (kept camera').congr apart (Ne.symm other)

/-- An event of which the books say nothing. -/
theorem Kept.alone {relay relay' : Relay F} {books : Int → Book F} (kept : Kept ⟨relay, books⟩) {camera : Int}
    (apart : Apart camera relay relay') (here : Agrees relay' camera (books camera)) : Kept ⟨relay', books⟩ := by
  have later := kept.at_camera apart here
  rw [Function.update_eq_self] at later
  exact later

/-! ## The parts of the relay -/

section Parts

variable {relay : Relay F} {camera : Int} {account : Account F} {book : Book F}

theorem Subscribed.setUpstream (subscribed : Subscribed relay camera account) {up : Upstream F}
    (same : (relay.upstream? camera).map Upstream.node = some up.node) :
    Subscribed (relay.setUpstream camera up) camera account := by
  have node : ((relay.setUpstream camera up).upstream? camera).map Upstream.node =
      (relay.upstream? camera).map Upstream.node := by
    rw [GatewayViewers.upstream?_setUpstream, if_pos rfl, same]
    rfl
  refine ⟨?_, ?_⟩
  · rw [node]
    exact subscribed.queue
  · rw [node]
    exact subscribed.elsewhere

/-- The tee of one node changes: the one of the upstream, or another. -/
theorem Subscribed.setTee (subscribed : Subscribed relay camera account) {node : String} {tee : LiveTee F}
    {account' : Account F}
    (here : (relay.upstream? camera).map Upstream.node = some node →
      ∃ queue, tee.subscribers.get? relay.gateway.name = some queue ∧ account'.Settles queue)
    (other : (relay.upstream? camera).map Upstream.node ≠ some node →
      tee.subscribers.get? relay.gateway.name = none ∧ account' = account) :
    Subscribed (relay.setTee node camera tee) camera account' := by
  constructor
  · intro node' at_
    rw [GatewayViewers.tee?_setTee]
    have at_ : (relay.upstream? camera).map Upstream.node = some node' := at_
    by_cases same : node' = node
    · subst same
      obtain ⟨queue, found, settles⟩ := here at_
      exact ⟨tee, queue, if_pos ⟨rfl, rfl⟩, found, settles⟩
    · have elsewhere : (relay.upstream? camera).map Upstream.node ≠ some node := by
        rw [at_]
        exact fun equal => same (Option.some.inj equal)
      rw [if_neg fun both => same both.1, (other elsewhere).2]
      exact subscribed.queue node' at_
  · intro node' tee' found elsewhere
    rw [GatewayViewers.tee?_setTee] at found
    split at found
    next same =>
      obtain rfl := Option.some.inj found
      rw [same.1] at elsewhere
      exact (other elsewhere).1
    next => exact subscribed.elsewhere node' tee' found elsewhere

theorem Agrees.setUpstream (agrees : Agrees relay camera book) {up : Upstream F}
    (upstream : relay.upstream? camera = some up) {viewers : Dict (LeakyQueue F)} {accounts : String → Account F}
    (seated : Seated viewers { book with viewers := accounts }) :
    Agrees (relay.setUpstream camera { up with viewers }) camera { book with viewers := accounts } := by
  refine ⟨agrees.subscribed.setUpstream (by rw [upstream]; rfl), fun up' upstream' => ?_⟩
  rw [GatewayViewers.upstream?_setUpstream, if_pos rfl] at upstream'
  obtain rfl := Option.some.inj upstream'
  exact seated

/-- One viewer's queue changes, and its account. -/
theorem Seated.set {viewers : Dict (LeakyQueue F)} (seated : Seated viewers book) {viewer : String}
    {vq : LeakyQueue F} (settles : account.Settles vq) (handed : account.given <:+ book.upstream.taken) :
    Seated (viewers.set viewer vq) { book with viewers := Function.update book.viewers viewer account } := by
  intro viewer' vq' found
  show (Function.update book.viewers viewer account viewer').Settles vq' ∧
    (Function.update book.viewers viewer account viewer').given <:+ book.upstream.taken
  by_cases same : viewer' = viewer
  · subst same
    rw [Dict.get?_set_self] at found
    obtain rfl := Option.some.inj found
    rw [Function.update_self]
    exact ⟨settles, handed⟩
  · rw [Dict.get?_set_other _ _ same] at found
    rw [Function.update_of_ne same]
    exact seated viewer' vq' found

end Parts

/-! ## Each event -/

theorem kept_push {relay : Relay F} {books : Int → Book F} (kept : Kept ⟨relay, books⟩) (node : String) (camera : Int)
    (frame : F) : Kept (step ⟨relay, books⟩ (.push node camera frame)) := by
  show Kept ⟨relay.push node camera frame, if (relay.upstream? camera).map Upstream.node = some node then
    Function.update books camera ((books camera).pushes frame) else books⟩
  have agrees : Agrees relay camera (books camera) := kept camera
  unfold Relay.push
  by_cases at_ : (relay.upstream? camera).map Upstream.node = some node
  · obtain ⟨tee, queue, found, subscribed, settles⟩ := agrees.subscribed.queue node at_
    rw [if_pos at_, found]
    refine kept.at_camera (.setTee (.refl _ _) _ _) ⟨agrees.subscribed.setTee (fun _ => ?_) ?_, agrees.seated⟩
    · refine ⟨queue.push frame, ?_, settles.push frame⟩
      simp only [LiveTee.push, Dict.get?_mapValues, subscribed, Option.map_some]
    · exact fun other => absurd at_ other
  · rw [if_neg at_]
    cases found : relay.tee? node camera with
    | none => exact kept
    | some tee =>
      have unsubscribed : (tee.push frame).subscribers.get? relay.gateway.name = none := by
        simp only [LiveTee.push, Dict.get?_mapValues, agrees.subscribed.elsewhere node tee found at_,
          Option.map_none]
      refine kept.alone (.setTee (.refl _ _) _ _) ⟨?_, agrees.seated⟩
      exact agrees.subscribed.setTee (fun here => absurd here at_) fun _ => ⟨unsubscribed, rfl⟩

theorem kept_drain {relay : Relay F} {books : Int → Book F} (kept : Kept ⟨relay, books⟩) (camera : Int)
    (viewer : String) : Kept (step ⟨relay, books⟩ (.drain camera viewer)) := by
  have agrees : Agrees relay camera (books camera) := kept camera
  show Kept ⟨relay.drain camera viewer,
    Function.update books camera ((books camera).drains viewer (frames (viewer? relay camera viewer)))⟩
  cases watching : viewer? relay camera viewer with
  | none =>
    have same : relay.drain camera viewer = relay := by
      unfold Relay.drain
      cases upstream : relay.upstream? camera with
      | none => rfl
      | some up =>
        have absent : up.viewers.get? viewer = none := by
          simpa only [viewer?, upstream, Option.bind_some] using watching
        simp only [absent]
    have nothing : (books camera).drains viewer (frames none) = books camera := by
      simp [Book.drains, frames, Account.takes]
    rw [same, nothing, Function.update_eq_self]
    exact kept
  | some vq =>
    obtain ⟨up, upstream, found⟩ := Option.bind_eq_some_iff.mp watching
    obtain ⟨settles, handed⟩ := agrees.seated up upstream viewer vq found
    have drained : relay.drain camera viewer =
        relay.setUpstream camera { up with viewers := up.viewers.set viewer vq.drained } := by
      simp only [Relay.drain, upstream, found]
    rw [drained]
    refine kept.at_camera (.setUpstream (.refl _ _) _) ?_
    exact agrees.setUpstream upstream ((agrees.seated up upstream).set settles.drained handed)

theorem kept_watch {relay : Relay F} {books : Int → Book F} (kept : Kept ⟨relay, books⟩) {directory : Directory}
    {camera : Int} {token viewer : String} {maxsize : Nat}
    (stays : Stays ⟨relay, books⟩ (.watch directory camera token viewer maxsize)) :
    Kept (step ⟨relay, books⟩ (.watch directory camera token viewer maxsize)) := by
  have agrees : Agrees relay camera (books camera) := kept camera
  unfold step
  simp only [act, enter]
  cases returned : relay.watch directory camera token viewer maxsize with
  | error error => exact kept
  | ok relay' =>
    obtain ⟨node, at_, ⟨up, upstream, rfl, rfl⟩ | ⟨other, opened, opened_, rfl⟩⟩ := watch_cases returned
    · refine kept.at_camera (.setUpstream (.refl _ _) _) ?_
      rw [if_pos (by rw [upstream, at_]; rfl)]
      exact agrees.setUpstream upstream
        ((agrees.seated up upstream).set (Account.settles_new maxsize) List.nil_suffix)
    · obtain ⟨-, tee, found, rfl⟩ := open_ok opened_
      refine kept.at_camera (.setUpstream (.setTee (.refl _ _) _ _) _) ?_
      -- an upstream on another node would be a failover
      have none : relay.upstream? camera = none := by
        refine Option.eq_none_iff_forall_ne_some.mpr fun up upstream => ?_
        exact other up upstream (stays up upstream node at_).symm
      rw [if_neg (by rw [none, at_]; exact (Option.some_ne_none node).symm)]
      have unsubscribed (node' : String) (tee' : LiveTee F) (found' : relay.tee? node' camera = some tee') :
          tee'.subscribers.get? relay.gateway.name = Option.none :=
        agrees.subscribed.elsewhere node' tee' found' (by rw [none]; exact (Option.some_ne_none node').symm)
      refine ⟨⟨?_, ?_⟩, ?_⟩
      · intro node' at_'
        rw [GatewayViewers.upstream?_setUpstream, if_pos rfl] at at_'
        obtain rfl := Option.some.inj at_'
        refine ⟨tee.subscribe relay.gateway.name 30, .new 30, ?_, ?_, Account.settles_new 30⟩
        · rw [GatewayViewers.tee?_setUpstream, GatewayViewers.tee?_setTee, if_pos ⟨rfl, rfl⟩]
        · rw [GatewayViewers.name_setUpstream, GatewayViewers.name_setTee, get?_subscribe, unsubscribed node tee found]
          rfl
      · intro node' tee' found' elsewhere
        rw [GatewayViewers.upstream?_setUpstream, if_pos rfl] at elsewhere
        rw [GatewayViewers.tee?_setUpstream, GatewayViewers.tee?_setTee] at found'
        split at found'
        next same => exact absurd (congrArg some same.1.symm) elsewhere
        next => exact unsubscribed node' tee' found'
      · intro up upstream
        rw [GatewayViewers.upstream?_setUpstream, if_pos rfl] at upstream
        obtain rfl := Option.some.inj upstream
        have nobody : Seated ([] : Dict (LeakyQueue F)) (.new : Book F) := fun _ _ found => by cases found
        exact nobody.set (Account.settles_new maxsize) List.nil_suffix

/-- The last viewer ends the subscription; the tee is there, since the queue is. -/
theorem kept_leave {relay : Relay F} {books : Int → Book F} (kept : Kept ⟨relay, books⟩) (camera : Int)
    (viewer : String) : Kept (step ⟨relay, books⟩ (.leave camera viewer)) := by
  show Kept ⟨(relay.leave camera viewer).2, books⟩
  have agrees : Agrees relay camera (books camera) := kept camera
  unfold Relay.leave
  cases upstream : relay.upstream? camera with
  | none => exact kept
  | some up =>
    cases found : up.viewers.get? viewer with
    | none =>
      simp only [found]
      exact kept
    | some vq =>
      have node : (relay.upstream? camera).map Upstream.node = some up.node := by rw [upstream]; rfl
      obtain ⟨tee, queue, at_, -⟩ := agrees.subscribed.queue up.node node
      simp only [found, at_]
      split
      next =>
        dsimp only
        refine kept.alone (.popUpstream (.setTee (.refl _ _) _ _)) ⟨⟨?_, ?_⟩, ?_⟩
        · intro node' there
          rw [GatewayViewers.upstream?_popUpstream, if_pos rfl] at there
          cases there
        · intro node' tee' found' _
          rw [GatewayViewers.tee?_popUpstream, GatewayViewers.tee?_setTee] at found'
          split at found'
          next =>
            obtain rfl := Option.some.inj found'
            exact Dict.get?_pop_self _ _
          next other =>
            refine agrees.subscribed.elsewhere node' tee' found' ?_
            rw [node]
            exact fun same => other ⟨(Option.some.inj same).symm, rfl⟩
        · intro up' there
          rw [GatewayViewers.upstream?_popUpstream, if_pos rfl] at there
          cases there
      next =>
        dsimp only
        refine kept.alone (.setUpstream (.refl _ _) _) ?_
        refine @Agrees.setUpstream _ _ _ (books camera) agrees up upstream _ (books camera).viewers ?_
        intro viewer' vq' found'
        by_cases same : viewer' = viewer
        · subst same
          rw [Dict.get?_pop_self] at found'
          cases found'
        · rw [Dict.get?_pop_other _ same] at found'
          exact agrees.seated up upstream viewer' vq' found'

/-! ## Pumping -/

theorem Agrees.pumpCamera {relay : Relay F} {camera : Int} {book : Book F} (agrees : Agrees relay camera book) :
    Agrees (relay.pumpCamera camera) camera (book.pumps (frames (FrameAccounts.queue? relay camera))) ∧
      frames (FrameAccounts.queue? (relay.pumpCamera camera) camera) = [] := by
  unfold Relay.pumpCamera
  cases upstream : relay.upstream? camera with
  | none =>
    have nothing : frames (FrameAccounts.queue? relay camera) = [] := by
      rw [FrameAccounts.queue?, upstream]
      rfl
    rw [nothing, Book.pumps_nil]
    exact ⟨agrees, rfl⟩
  | some up =>
    have node : (relay.upstream? camera).map Upstream.node = some up.node := by rw [upstream]; rfl
    obtain ⟨tee, queue, found, subscribed, settles⟩ := agrees.subscribed.queue up.node node
    have waiting : FrameAccounts.queue? relay camera = some queue := by
      rw [FrameAccounts.queue?, upstream, Option.bind_some, found, Option.bind_some, subscribed]
    simp only [found, subscribed, waiting]
    refine ⟨⟨Subscribed.setUpstream ?_ node, ?_⟩, ?_⟩
    · refine agrees.subscribed.setTee (fun _ => ?_) fun other => absurd node other
      exact ⟨queue.drained, Dict.get?_set_self _ _ _, settles.drained⟩
    · intro up' upstream' viewer vq' found'
      rw [GatewayViewers.upstream?_setUpstream, if_pos rfl] at upstream'
      obtain rfl := Option.some.inj upstream'
      simp only [Dict.get?_mapValues, Option.map_eq_some_iff] at found'
      obtain ⟨vq, watching, rfl⟩ := found'
      obtain ⟨account, first, taken⟩ := agrees.seated up upstream viewer vq watching
      refine ⟨account.pushes queue.q, first, ?_⟩
      simp only [frames, Option.map_some, Option.getD_some, Book.pumps, Account.gives, Account.takes, ← taken,
        List.append_assoc]
    · simp only [FrameAccounts.queue?, GatewayViewers.upstream?_setUpstream, GatewayViewers.tee?_setUpstream,
        GatewayViewers.tee?_setTee, GatewayViewers.name_setUpstream, GatewayViewers.name_setTee, if_true,
        Option.bind_some, and_self, Dict.get?_set_self]
      rfl

theorem queue?_apart {relay relay' : Relay F} {camera camera' : Int} (apart : Apart camera' relay relay')
    (other : camera' ≠ camera) : queue? relay' camera = queue? relay camera := by
  simp only [queue?, apart.upstream camera other, apart.tees camera _ other, apart.name]

theorem Agrees.foldl_pumpCamera {camera : Int} (cameras : List Int) {relay : Relay F} {book : Book F}
    (agrees : Agrees relay camera book) :
    Agrees (cameras.foldl Relay.pumpCamera relay) camera
      (if camera ∈ cameras then book.pumps (frames (FrameAccounts.queue? relay camera)) else book) := by
  induction cameras generalizing relay book with
  | nil => exact agrees
  | cons first rest ih =>
    by_cases here : first = camera
    · subst here
      obtain ⟨pumped, empty⟩ := agrees.pumpCamera
      have later := ih pumped
      -- a second round finds nothing
      rw [empty, Book.pumps_nil, ite_self] at later
      rw [if_pos List.mem_cons_self]
      exact later
    · have apart := apart_pumpCamera relay first
      have later := ih (agrees.congr apart here)
      rw [queue?_apart apart here] at later
      simpa [Ne.symm here] using later

theorem kept_pump {relay : Relay F} {books : Int → Book F} (kept : Kept ⟨relay, books⟩) :
    Kept (step ⟨relay, books⟩ .pump) := by
  intro camera
  show Agrees relay.pump camera ((books camera).pumps (frames (queue? relay camera)))
  have pumped := (kept camera).foldl_pumpCamera relay.gateway.upstreams.keys
  split at pumped
  next => exact pumped
  next absent =>
    have upstream : relay.upstream? camera = none := Table.get?_eq_none.mpr absent
    have nothing : frames (queue? relay camera) = [] := by
      rw [queue?, upstream]
      rfl
    rw [nothing, Book.pumps_nil]
    exact pumped

/-! ## Runs -/

theorem Kept.step {recorded : Recorded F} (kept : Kept recorded) {event : Event F} (stays : Stays recorded event) :
    Kept (step recorded event) := by
  cases event with
  | watch directory camera token viewer maxsize => exact kept_watch kept stays
  | leave camera viewer => exact kept_leave kept camera viewer
  | pump => exact kept_pump kept
  | push node camera frame => exact kept_push kept node camera frame
  | drain camera viewer => exact kept_drain kept camera viewer

theorem kept_start {name : String} {endpoint : String → Table (LiveTee F)}
    (fresh : ∀ node camera tee, (endpoint node).get? camera = some tee → tee.subscribers.get? name = none) :
    Kept (start name endpoint) := by
  intro camera
  refine ⟨⟨fun node there => ?_, fun node tee found _ => fresh node camera tee found⟩, fun up there => ?_⟩
  · cases there
  · cases there

/-! ## A slow viewer -/

/-- The event is a drain by this viewer. -/
def Event.isDrainBy (camera : Int) (viewer : String) : Event F → Bool
  | .drain camera' viewer' => camera' = camera && viewer' = viewer
  | _ => false

/-- The tees are the same, and the queue of every other viewer. -/
def SameElsewhere (camera : Int) (viewer : String) (relay relay' : Relay F) : Prop :=
  (∀ node camera', relay.tee? node camera' = relay'.tee? node camera') ∧
    ∀ camera' viewer', camera' ≠ camera ∨ viewer' ≠ viewer →
      viewer? relay camera' viewer' = viewer? relay' camera' viewer'

/-- Who watches a camera, and where. -/
def seats (up : Upstream F) : String × List String := (up.node, up.viewers.map Prod.fst)

/-- The relays differ at most in the queue of one viewer. -/
structure Beside (camera : Int) (viewer : String) (relay relay' : Relay F) : Prop where
  name : relay.gateway.name = relay'.gateway.name
  endpoint : relay.endpoint = relay'.endpoint
  cameras : relay.gateway.upstreams.keys = relay'.gateway.upstreams.keys
  seats : ∀ camera', (relay.upstream? camera').map seats = (relay'.upstream? camera').map seats
  queues : ∀ camera' viewer', camera' ≠ camera ∨ viewer' ≠ viewer →
    viewer? relay camera' viewer' = viewer? relay' camera' viewer'

/-- The viewers of two upstreams, of which one queue may differ. -/
def Alike (camera : Int) (viewer : String) (camera' : Int) (up up' : Upstream F) : Prop :=
  seats up = seats up' ∧
    ∀ viewer', camera' ≠ camera ∨ viewer' ≠ viewer → up.viewers.get? viewer' = up'.viewers.get? viewer'

section Beside

variable {camera : Int} {viewer : String} {relay relay' : Relay F}

theorem Beside.upstream (beside : Beside camera viewer relay relay') (camera' : Int) :
    (relay.upstream? camera' = none ∧ relay'.upstream? camera' = none) ∨
      ∃ up up', relay.upstream? camera' = some up ∧ relay'.upstream? camera' = some up' ∧
        Alike camera viewer camera' up up' := by
  have same := beside.seats camera'
  cases here : relay.upstream? camera' with
  | none =>
    rw [here, Option.map_none] at same
    exact .inl ⟨rfl, Option.map_eq_none_iff.mp same.symm⟩
  | some up =>
    rw [here, Option.map_some] at same
    obtain ⟨up', there, seats'⟩ := Option.map_eq_some_iff.mp same.symm
    refine .inr ⟨up, up', rfl, there, seats'.symm, fun viewer' other => ?_⟩
    have queues := beside.queues camera' viewer' other
    simpa only [viewer?, here, there, Option.bind_some] using queues

theorem Beside.tee? (beside : Beside camera viewer relay relay') (node : String) (camera' : Int) :
    relay'.tee? node camera' = relay.tee? node camera' := by
  unfold Relay.tee?
  rw [beside.endpoint]

theorem Beside.setTee (beside : Beside camera viewer relay relay') (node : String) (camera' : Int)
    (tee : LiveTee F) : Beside camera viewer (relay.setTee node camera' tee) (relay'.setTee node camera' tee) where
  name := beside.name
  endpoint := by simp only [Relay.setTee, beside.endpoint]
  cameras := beside.cameras
  seats := beside.seats
  queues := beside.queues

theorem Beside.setUpstream (beside : Beside camera viewer relay relay') {camera' : Int} {up up' : Upstream F}
    (alike : Alike camera viewer camera' up up') :
    Beside camera viewer (relay.setUpstream camera' up) (relay'.setUpstream camera' up') where
  name := beside.name
  endpoint := beside.endpoint
  cameras := by
    show (relay.gateway.upstreams.set camera' up).keys = (relay'.gateway.upstreams.set camera' up').keys
    rw [Table.keys_set, Table.keys_set, beside.cameras]
  seats camera'' := by
    rw [GatewayViewers.upstream?_setUpstream, GatewayViewers.upstream?_setUpstream]
    split
    next => exact congrArg some alike.1
    next => exact beside.seats camera''
  queues camera'' viewer' other := by
    have queues := beside.queues camera'' viewer' other
    simp only [viewer?, GatewayViewers.upstream?_setUpstream] at queues ⊢
    by_cases same : camera' = camera''
    · subst same
      rw [if_pos rfl, if_pos rfl]
      exact alike.2 viewer' other
    · rw [if_neg same, if_neg same]
      exact queues

theorem Beside.popUpstream (beside : Beside camera viewer relay relay') (camera' : Int) :
    Beside camera viewer (relay.popUpstream camera') (relay'.popUpstream camera') where
  name := beside.name
  endpoint := beside.endpoint
  cameras := by
    show (relay.gateway.upstreams.pop camera').keys = (relay'.gateway.upstreams.pop camera').keys
    rw [Table.keys_pop, Table.keys_pop, beside.cameras]
  seats camera'' := by
    rw [GatewayViewers.upstream?_popUpstream, GatewayViewers.upstream?_popUpstream]
    split
    next => rfl
    next => exact beside.seats camera''
  queues camera'' viewer' other := by
    have queues := beside.queues camera'' viewer' other
    simp only [viewer?, GatewayViewers.upstream?_popUpstream] at queues ⊢
    split
    next => rfl
    next => exact queues

theorem Beside.refl (relay : Relay F) : Beside camera viewer relay relay :=
  ⟨rfl, rfl, rfl, fun _ => rfl, fun _ _ _ => rfl⟩

theorem Beside.symm (beside : Beside camera viewer relay relay') : Beside camera viewer relay' relay where
  name := beside.name.symm
  endpoint := beside.endpoint.symm
  cameras := beside.cameras.symm
  seats camera' := (beside.seats camera').symm
  queues camera' viewer' other := (beside.queues camera' viewer' other).symm

theorem Beside.trans {relay'' : Relay F} (first : Beside camera viewer relay relay')
    (second : Beside camera viewer relay' relay'') : Beside camera viewer relay relay'' where
  name := first.name.trans second.name
  endpoint := first.endpoint.trans second.endpoint
  cameras := first.cameras.trans second.cameras
  seats camera' := (first.seats camera').trans (second.seats camera')
  queues camera' viewer' other := (first.queues camera' viewer' other).trans (second.queues camera' viewer' other)

theorem Beside.sameElsewhere (beside : Beside camera viewer relay relay') : SameElsewhere camera viewer relay relay' :=
  ⟨fun node camera' => (beside.tee? node camera').symm, beside.queues⟩

variable {camera' : Int} {up up' : Upstream F}

theorem Alike.set (alike : Alike camera viewer camera' up up') (viewer' : String) (vq : LeakyQueue F) :
    Alike camera viewer camera' { up with viewers := up.viewers.set viewer' vq }
      { up' with viewers := up'.viewers.set viewer' vq } := by
  obtain ⟨node, keys⟩ := Prod.mk.inj alike.1
  refine ⟨?_, fun viewer'' other => ?_⟩
  · simp only [FrameAccounts.seats, Dict.keys_set, keys, node]
  · by_cases same : viewer'' = viewer'
    · simp only [same, Dict.get?_set_self]
    · simp only [Dict.get?_set_other _ _ same, alike.2 viewer'' other]

theorem Alike.pop (alike : Alike camera viewer camera' up up') (viewer' : String) :
    Alike camera viewer camera' { up with viewers := up.viewers.pop viewer' }
      { up' with viewers := up'.viewers.pop viewer' } := by
  obtain ⟨node, keys⟩ := Prod.mk.inj alike.1
  refine ⟨?_, fun viewer'' other => ?_⟩
  · simp only [FrameAccounts.seats, Dict.keys_pop, keys, node]
  · by_cases same : viewer'' = viewer'
    · simp only [same, Dict.get?_pop_self]
    · simp only [Dict.get?_pop_other _ same, alike.2 viewer'' other]

theorem Alike.mapValues (alike : Alike camera viewer camera' up up') (f : LeakyQueue F → LeakyQueue F) :
    Alike camera viewer camera' { up with viewers := up.viewers.mapValues f }
      { up' with viewers := up'.viewers.mapValues f } := by
  obtain ⟨node, keys⟩ := Prod.mk.inj alike.1
  refine ⟨?_, fun viewer'' other => ?_⟩
  · simp only [FrameAccounts.seats, Dict.keys_mapValues, keys, node]
  · simp only [Dict.get?_mapValues, alike.2 viewer'' other]

/-- The two know the same viewers. -/
theorem Alike.has (alike : Alike camera viewer camera' up up') (viewer' : String) :
    (up.viewers.get? viewer').isSome ↔ (up'.viewers.get? viewer').isSome := by
  rw [← Dict.mem_keys, ← Dict.mem_keys, (Prod.mk.inj alike.1).2]

theorem Alike.isEmpty (alike : Alike camera viewer camera' up up') : up.viewers.isEmpty = up'.viewers.isEmpty := by
  have keys := congrArg List.isEmpty (Prod.mk.inj alike.1).2
  rwa [List.isEmpty_map, List.isEmpty_map] at keys

/-- A drain changes nothing but the queue of the viewer. -/
theorem Beside.drained (relay : Relay F) (camera : Int) (viewer : String) :
    Beside camera viewer (relay.drain camera viewer) relay := by
  unfold Relay.drain
  cases upstream : relay.upstream? camera with
  | none => exact .refl relay
  | some up =>
    cases found : up.viewers.get? viewer with
    | none =>
      simp only [found]
      exact .refl relay
    | some vq =>
      simp only [found]
      have still : relay.setUpstream camera up = relay := by
        unfold Relay.setUpstream
        rw [Table.set_of_get? upstream]
      have alike : Alike camera viewer camera { up with viewers := up.viewers.set viewer vq.drained } up := by
        refine ⟨?_, fun viewer' other => ?_⟩
        · have there : viewer ∈ up.viewers.map Prod.fst := Dict.mem_keys.mpr (by rw [found]; rfl)
          simp only [FrameAccounts.seats, Dict.keys_set, if_pos there]
        · obtain elsewhere | other := other
          · exact absurd rfl elsewhere
          · exact Dict.get?_set_other _ _ other
      have changed := (Beside.refl relay).setUpstream alike
      rwa [still] at changed

/-- Any other drain is the same in both. -/
theorem Beside.drain (beside : Beside camera viewer relay relay') {camera' : Int} {viewer' : String}
    (other : camera' ≠ camera ∨ viewer' ≠ viewer) :
    Beside camera viewer (relay.drain camera' viewer') (relay'.drain camera' viewer') := by
  unfold Relay.drain
  obtain ⟨none, none'⟩ | ⟨up, up', upstream, upstream', alike⟩ := beside.upstream camera'
  · rw [none, none']
    exact beside
  · rw [upstream, upstream']
    have same := alike.2 viewer' other
    cases found : up.viewers.get? viewer' with
    | none =>
      rw [found] at same
      simp only [found, ← same]
      exact beside
    | some vq =>
      rw [found] at same
      simp only [found, ← same]
      exact beside.setUpstream (alike.set viewer' _)

theorem Beside.push (beside : Beside camera viewer relay relay') (node : String) (camera' : Int) (frame : F) :
    Beside camera viewer (relay.push node camera' frame) (relay'.push node camera' frame) := by
  unfold Relay.push
  rw [beside.tee? node camera']
  cases relay.tee? node camera' with
  | none => exact beside
  | some tee => exact beside.setTee node camera' _

theorem Beside.pumpCamera (beside : Beside camera viewer relay relay') (camera' : Int) :
    Beside camera viewer (relay.pumpCamera camera') (relay'.pumpCamera camera') := by
  unfold Relay.pumpCamera
  obtain ⟨none, none'⟩ | ⟨up, up', upstream, upstream', alike⟩ := beside.upstream camera'
  · rw [none, none']
    exact beside
  · rw [upstream, upstream']
    simp only [← (Prod.mk.inj alike.1).1, beside.tee?, ← beside.name]
    cases relay.tee? up.node camera' with
    | none => exact beside
    | some tee =>
      cases subscribed : tee.subscribers.get? relay.gateway.name with
      | none =>
        simp only [subscribed]
        exact beside
      | some queue =>
        simp only [subscribed]
        have pumped := alike.mapValues fun vq => queue.q.foldl (fun vq frame => vq.push frame) vq
        rw [← (Prod.mk.inj alike.1).1] at pumped
        exact (beside.setTee _ _ _).setUpstream pumped

theorem Beside.pump (beside : Beside camera viewer relay relay') : Beside camera viewer relay.pump relay'.pump := by
  unfold Relay.pump
  rw [← beside.cameras]
  generalize relay.gateway.upstreams.keys = cameras
  induction cameras generalizing relay relay' with
  | nil => exact beside
  | cons first rest ih => exact ih (beside.pumpCamera first)

theorem Beside.leave (beside : Beside camera viewer relay relay') (camera' : Int) (viewer' : String) :
    Beside camera viewer (relay.leave camera' viewer').2 (relay'.leave camera' viewer').2 := by
  unfold Relay.leave
  obtain ⟨none, none'⟩ | ⟨up, up', upstream, upstream', alike⟩ := beside.upstream camera'
  · rw [none, none']
    exact beside
  · rw [upstream, upstream']
    have same := alike.has viewer'
    cases found : up.viewers.get? viewer' with
    | none =>
      have absent : up'.viewers.get? viewer' = none := by
        rw [found] at same
        exact Option.not_isSome_iff_eq_none.mp fun there => Bool.noConfusion (same.mpr there)
      simp only [found, absent]
      exact beside
    | some vq =>
      obtain ⟨vq', found'⟩ := Option.isSome_iff_exists.mp (same.mp (by rw [found]; rfl))
      have left := alike.pop viewer'
      have empty := left.isEmpty
      simp only [found, found', ← empty, ← (Prod.mk.inj alike.1).1, beside.tee?, ← beside.name]
      cases last : (up.viewers.pop viewer').isEmpty with
      | false =>
        rw [← (Prod.mk.inj alike.1).1] at left
        exact beside.setUpstream left
      | true =>
        cases relay.tee? up.node camera' with
        | none =>
          rw [← (Prod.mk.inj alike.1).1] at left
          exact beside.setUpstream left
        | some tee => exact (beside.setTee _ _ _).popUpstream camera'

/-- Two answers are the same error, or two relays that differ in one queue. -/
def Answers (camera : Int) (viewer : String) (answer answer' : Except GatewayError (Relay F)) : Prop :=
  (∃ error, answer = .error error ∧ answer' = .error error) ∨
    ∃ relay relay', answer = .ok relay ∧ answer' = .ok relay' ∧ Beside camera viewer relay relay'

theorem Beside.open_ (beside : Beside camera viewer relay relay') (directory : Directory) (node : String)
    (camera' : Int) (token : String) :
    Answers camera viewer (relay.open_ directory node camera' token) (relay'.open_ directory node camera' token) := by
  unfold Relay.open_
  cases directory.authorise node token camera' with
  | error error => exact .inl ⟨error, rfl, rfl⟩
  | ok subject =>
    rw [beside.tee? node camera']
    cases relay.tee? node camera' with
    | none => exact .inl ⟨_, rfl, rfl⟩
    | some tee =>
      refine .inr ⟨_, _, rfl, rfl, ?_⟩
      rw [← beside.name]
      exact beside.setTee node camera' _

theorem Beside.watch (beside : Beside camera viewer relay relay') (directory : Directory) (camera' : Int)
    (token viewer' : String) (maxsize : Nat) :
    Answers camera viewer (relay.watch directory camera' token viewer' maxsize)
      (relay'.watch directory camera' token viewer' maxsize) := by
  unfold Relay.watch
  cases directory.where_ camera' with
  | none => exact .inl ⟨_, rfl, rfl⟩
  | some node =>
    have fresh (relay relay' : Relay F) (beside : Beside camera viewer relay relay') :
        Beside camera viewer (relay.setUpstream camera' ⟨node, [(viewer', .new maxsize)]⟩)
          (relay'.setUpstream camera' ⟨node, [(viewer', .new maxsize)]⟩) :=
      beside.setUpstream ⟨rfl, fun _ _ => rfl⟩
    have opens (absent : (relay.upstream? camera').filter (·.node = node) = none)
        (absent' : (relay'.upstream? camera').filter (·.node = node) = none) :
        Answers camera viewer
          (relay.joined directory node camera' token >>= fun joined =>
            return joined.2.setUpstream camera' { joined.1 with viewers := joined.1.viewers.set viewer' (.new maxsize) })
          (relay'.joined directory node camera' token >>= fun joined =>
            return joined.2.setUpstream camera'
              { joined.1 with viewers := joined.1.viewers.set viewer' (.new maxsize) }) := by
      unfold Relay.joined
      rw [absent, absent']
      obtain ⟨error, refused, refused'⟩ | ⟨opened, opened', answer, answer', still⟩ :=
        beside.open_ directory node camera' token
      · rw [refused, refused']
        exact .inl ⟨error, rfl, rfl⟩
      · rw [answer, answer']
        exact .inr ⟨_, _, rfl, rfl, fresh opened opened' still⟩
    obtain ⟨none, none'⟩ | ⟨up, up', upstream, upstream', alike⟩ := beside.upstream camera'
    · refine opens ?_ ?_
      · rw [none]
        rfl
      · rw [none']
        rfl
    · have same := (Prod.mk.inj alike.1).1
      by_cases here : up.node = node
      · -- the upstream that is there is joined, and the viewer is checked
        show Answers camera viewer (relay.joined directory node camera' token >>= _)
          (relay'.joined directory node camera' token >>= _)
        unfold Relay.joined
        rw [upstream, upstream', Option.filter_some, Option.filter_some, if_pos (by simpa using here),
          if_pos (by simpa [← same] using here)]
        cases admitted : directory.authorise node token camera' with
        | error error => exact .inl ⟨error, rfl, rfl⟩
        | ok subject => exact .inr ⟨_, _, rfl, rfl, beside.setUpstream (alike.set viewer' _)⟩
      · refine opens ?_ ?_
        · rw [upstream, Option.filter_some, if_neg (by simpa using here)]
        · rw [upstream', Option.filter_some, if_neg (by simpa [← same] using here)]

theorem Beside.act (beside : Beside camera viewer relay relay') {event : Event F}
    (other : event.isDrainBy camera viewer = false) :
    Beside camera viewer (act relay event) (act relay' event) := by
  cases event with
  | watch directory camera' token viewer' maxsize =>
    simp only [FrameAccounts.act]
    obtain ⟨error, refused, refused'⟩ | ⟨watched, watched', answer, answer', still⟩ :=
      beside.watch directory camera' token viewer' maxsize
    · rw [refused, refused']
      exact beside
    · rw [answer, answer']
      exact still
  | leave camera' viewer' => exact beside.leave camera' viewer'
  | pump => exact beside.pump
  | push node camera' frame => exact beside.push node camera' frame
  | drain camera' viewer' =>
    refine beside.drain ?_
    simp only [Event.isDrainBy, Bool.and_eq_false_iff, decide_eq_false_iff_not] at other
    exact other

/-- Without the drains of the viewer the run goes as it does with them. -/
theorem Beside.run (beside : Beside camera viewer relay relay') (events : List (Event F)) :
    Beside camera viewer (events.foldl FrameAccounts.act relay)
      ((events.filter fun event => !event.isDrainBy camera viewer).foldl FrameAccounts.act relay') := by
  induction events generalizing relay relay' with
  | nil => exact beside
  | cons event rest ih =>
    rw [List.foldl_cons, List.filter_cons]
    cases own : event.isDrainBy camera viewer with
    | false => exact ih (beside.act own)
    | true =>
      refine ih (Beside.trans ?_ beside)
      cases event with
      | drain camera' viewer' =>
        simp only [Event.isDrainBy, Bool.and_eq_true, decide_eq_true_eq] at own
        obtain ⟨rfl, rfl⟩ := own
        exact .drained relay camera' viewer'
      | watch | leave | pump | push => cases own

end Beside

theorem relay_run (events : List (Event F)) (recorded : Recorded F) :
    (events.foldl step recorded).relay = events.foldl act recorded.relay := by
  induction events generalizing recorded with
  | nil => rfl
  | cons event rest ih => exact ih (step recorded event)

/-- In a run without failover each frame is drained, queued or counted as dropped, at the tee and by each
viewer, in the order of the pushes; and what one viewer drains is seen by nobody else. -/
theorem frames_accounted {name : String} {endpoint : String → Table (LiveTee F)}
    (fresh : ∀ node camera tee, (endpoint node).get? camera = some tee → tee.subscribers.get? name = none)
    {events : List (Event F)} (stays : Along step Stays events (start name endpoint)) :
    Balanced (events.foldl step (start name endpoint)) ∧
      ∀ camera viewer (others : List (Event F)),
        (others.filter fun event => !event.isDrainBy camera viewer) =
            (events.filter fun event => !event.isDrainBy camera viewer) →
          SameElsewhere camera viewer (events.foldl step (start name endpoint)).relay
            (others.foldl step (start name endpoint)).relay := by
  refine ⟨?_, fun camera viewer others same => ?_⟩
  · exact (stays.keeps (fun _ _ stays kept => kept.step stays) (kept_start fresh)).balanced
  · rw [relay_run, relay_run]
    have here := (@Beside.refl _ camera viewer (start name endpoint).relay).run events
    have there := (@Beside.refl _ camera viewer (start name endpoint).relay).run others
    rw [same] at there
    exact (here.trans there.symm).sameElsewhere

/-- The second viewer has room for one frame, and the tee for thirty. -/
def slow : List (Event Nat) :=
  [.watch (homes "node-4") 7 "t" "b1" 30, .watch (homes "node-4") 7 "t" "b2" 1, .push "node-4" 7 1, .push "node-4" 7 2,
    .pump, .drain 7 "b1", .push "node-4" 7 3, .pump, .drain 7 "b2"]

theorem frames_accounted_slow :
    Balanced (slow.foldl step (start "gw" tees)) ∧
      ∀ camera viewer (others : List (Event Nat)),
        (others.filter fun event => !event.isDrainBy camera viewer) =
            (slow.filter fun event => !event.isDrainBy camera viewer) →
          SameElsewhere camera viewer (slow.foldl step (start "gw" tees)).relay
            (others.foldl step (start "gw" tees)).relay :=
  frames_accounted tees_fresh (by decide +kernel)

end EdgeVms.Verified.FrameAccounts
