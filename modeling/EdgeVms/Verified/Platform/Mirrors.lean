import EdgeVms.Verified.Platform.Passes
import EdgeVms.Process.Run
import Mathlib.Data.String.Basic

/-! # Mirrors are faithful

Copies are told apart by their paths alone.  As long as no event goes into a bucket that
has a copy, and no PUT arrives late in part, every copy is the original, byte by byte, and
what a restored server gets back is what it had.
-/

namespace EdgeVms.Verified.Mirrors

open Process Python
open Platform (Tree Bytes Bucket EventLog ResourceBeat sorted)
open Platform.Resource
open Passes

variable {site : Site} {me : String} {fleet fleet' : Fleet}

/-- Every copy is the original, and every heartbeat gives the address of its server. -/
structure Faithful (site : Site) (fleet : Fleet) : Prop where
  copies : ∀ holder server path bytes, copy fleet holder server path = some bytes →
    original fleet server path = some bytes
  addressed : ∀ entry ∈ fleet.beats, entry.2.url = site.url entry.1

/-- What the other servers may do while a pass of `me` waits. -/
structure Onward (site : Site) (me : String) (fleet fleet' : Fleet) : Prop where
  files : ∀ path, (original fleet me path).isSome → (original fleet' me path).isSome
  copies : ∀ holder path, (copy fleet holder me path).isSome → (copy fleet' holder me path).isSome
  clock : fleet.clock me ≤ fleet'.clock me
  faithful : Faithful site fleet'

theorem Onward.refl (faithful : Faithful site fleet) : Onward site me fleet fleet :=
  ⟨fun _ there => there, fun _ _ there => there, le_refl _, faithful⟩

theorem Onward.trans {fleet'' : Fleet} (first : Onward site me fleet fleet') (second : Onward site me fleet' fleet'') :
    Onward site me fleet fleet'' :=
  ⟨fun path there => second.files path (first.files path there),
    fun holder path there => second.copies holder path (first.copies holder path there),
    first.clock.trans second.clock, second.faithful⟩

/-- A pass that has read a bucket for a peer relies on its bytes until they are sent. -/
def rely (site : Site) (me : String) : Stage → Fleet → Fleet → Prop
  | .idle, fleet, fleet' => Onward site me fleet fleet'
  | .sending path, fleet, fleet' => Onward site me fleet fleet' ∧ original fleet' me path = original fleet me path

theorem rely_trans (stage : Stage) (fleet fleet' fleet'' : Fleet) (first : rely site me stage fleet fleet')
    (second : rely site me stage fleet' fleet'') : rely site me stage fleet fleet'' := by
  cases stage with
  | idle => exact Onward.trans first second
  | sending path => exact ⟨first.1.trans second.1, second.2.trans first.2⟩

/-- What one request of a mirror pass may do. -/
structure Copied (site : Site) (fleet fleet' : Fleet) : Prop where
  files : ∀ server path, original fleet' server path = original fleet server path
  copies : ∀ holder server path, (copy fleet holder server path).isSome → (copy fleet' holder server path).isSome
  clock : fleet'.clock = fleet.clock
  faithful : Faithful site fleet'

theorem Copied.refl (faithful : Faithful site fleet) : Copied site fleet fleet :=
  ⟨fun _ _ => rfl, fun _ _ _ there => there, rfl, faithful⟩

theorem Copied.onward (copied : Copied site fleet fleet') (me : String) : Onward site me fleet fleet' where
  files path there := by rwa [copied.files]
  copies holder path := copied.copies holder me path
  clock := by rw [copied.clock]
  faithful := copied.faithful

theorem Copied.rely (copied : Copied site fleet fleet') (me : String) (stage : Stage) :
    rely site me stage fleet fleet' := by
  cases stage with
  | idle => exact copied.onward me
  | sending path => exact ⟨copied.onward me, copied.files me path⟩

/-- A copy of the original makes one more copy. -/
theorem Faithful.keepCopy (faithful : Faithful site fleet) (holder : String) {server path : String} {bytes : Bytes}
    (same : original fleet server path = some bytes) :
    let fleet' := fleet.setDisk holder ((fleet.disks holder).keepCopy server path bytes)
    Copied site fleet fleet' ∧ (copy fleet' holder server path).isSome := by
  intro fleet'
  have files : ∀ server path, original fleet' server path = original fleet server path := by
    intro server' path'
    simp only [original, fleet', disks_setDisk]
    split
    next here => rw [here]; rfl
    next => rfl
  have copies : ∀ holder' server' path', copy fleet' holder' server' path' =
      if holder' = holder ∧ server' = server ∧ path' = path then some bytes else copy fleet holder' server' path' := by
    intro holder' server' path'
    simp only [copy, fleet', disks_setDisk]
    by_cases here : holder' = holder
    · rw [if_pos here, copiesOf_keepCopy, here]
      simp only [true_and]
    · rw [if_neg here, if_neg fun all => here all.1]
  refine ⟨⟨files, ?_, rfl, ⟨?_, faithful.addressed⟩⟩, ?_⟩
  · intro holder' server' path' there
    rw [copies]
    split
    · rfl
    · exact there
  · intro holder' server' path' bytes' stored
    rw [copies] at stored
    rw [files]
    split at stored
    next here =>
      rw [here.2.1, here.2.2, same]
      exact stored
    next => exact faithful.copies holder' server' path' bytes' stored
  · rw [copies, if_pos ⟨rfl, rfl, rfl⟩]
    rfl

/-! ## A mirror pass -/

/-- The pass of `me` is safe, as long as the others leave it what it read. -/
abbrev Mirroring {α : Type} (site : Site) (me : String) (post : α → Fleet → Prop) (p : Program α) (fleet : Fleet) :
    Prop := Serves site me (rely site me) (Copied site) post p fleet

theorem quiet (fleet fleet' : Fleet) (moved : rely site me .idle fleet fleet') : Copied site fleet' fleet' :=
  .refl (Onward.faithful moved)

/-- A bucket of `me` whose span is over. -/
def Due (site : Site) (me : String) (fleet : Fleet) (path : String) : Prop :=
  (original fleet me path).isSome ∧ path.toList.head? ≠ some '.' ∧
    ∃ end_, site.endOf path = some end_ ∧ end_ ≤ fleet.clock me

theorem Due.onward {path : String} (due : Due site me fleet path) (moved : Onward site me fleet fleet') :
    Due site me fleet' path := by
  obtain ⟨there, plain, end_, ends, past⟩ := due
  exact ⟨moved.files path there, plain, end_, ends, past.trans moved.clock⟩

theorem mem_closedAt {path : String} : path ∈ site.closedAt fleet me ↔ Due site me fleet path := by
  rw [Site.closedAt, List.mem_filter, Versioned.mem_keys, Bool.and_eq_true, decide_eq_true_eq, Due, original,
    Option.isSome_iff_ne_none]
  constructor
  · rintro ⟨there, past, plain⟩
    cases ends : site.endOf path with
    | none =>
      rw [ends] at past
      cases past
    | some end_ =>
      rw [ends] at past
      exact ⟨there, plain, end_, rfl, of_decide_eq_true past⟩
  · rintro ⟨there, plain, end_, ends, past⟩
    refine ⟨there, ?_, plain⟩
    rw [ends]
    exact decide_eq_true past

theorem closedRounds_mirroring (faithful : Faithful site fleet) (bs out : List Bucket) :
    Mirroring site me (fun out' fleet' => Onward site me fleet fleet' ∧ (∀ b ∈ out, b ∈ out') ∧
      ∀ b ∈ bs, b.end_ ≤ fleet.clock me → b ∈ out') (closedRounds bs out) fleet := by
  induction bs generalizing fleet out with
  | nil => exact ⟨.refl faithful, fun _ inside => inside, nofun⟩
  | cons b rest ih =>
    refine Serves.look quiet (fun _ => rfl) fun fleet' moved => ?_
    refine Serves.mono ?_ (ih moved.faithful _)
    rintro out' fleet'' ⟨onward, kept, found⟩
    refine ⟨moved.trans onward, fun b' inside => kept b' ?_, fun b' inside past => ?_⟩
    · split
      · exact List.mem_append_left _ inside
      · exact inside
    · obtain rfl | later := List.mem_cons.mp inside
      · refine kept b' ?_
        show b' ∈ if b'.end_ ≤ fleet'.clock me then out ++ [b'] else out
        rw [if_pos (past.trans moved.clock)]
        exact List.mem_append_right _ (.head _)
      · exact found b' later (past.trans moved.clock)

/-- Among the listed units, the closed buckets of each are found. -/
theorem unitRounds_mirroring (faithful : Faithful site fleet) (subsystem : String) (units : List String)
    (out : List Bucket) :
    Mirroring site me (fun out' fleet' => Onward site me fleet fleet' ∧ (∀ b ∈ out, b ∈ out') ∧
      ∀ unit ∈ units, ∀ path, Due site me fleet path → isUnder (subsystem ++ "/" ++ unit) path = true →
        ∃ b ∈ out', b.path = path) (unitRounds subsystem units out) fleet := by
  induction units generalizing fleet out with
  | nil => exact ⟨.refl faithful, fun _ inside => inside, nofun⟩
  | cons unit rest ih =>
    refine Serves.look quiet (fun _ => rfl) fun fleet₁ moved₁ => ?_
    refine Serves.ofExcept fun bs answered => ?_
    refine Serves.cut _ (closedRounds_mirroring moved₁.faithful bs out) ?_
    rintro out₂ fleet₂ ⟨moved₂, kept₂, found₂⟩
    refine Serves.mono ?_ (ih moved₂.faithful out₂)
    rintro out₃ fleet₃ ⟨moved₃, kept₃, found₃⟩
    refine ⟨moved₁.trans (moved₂.trans moved₃), fun b inside => kept₃ b (kept₂ b inside), ?_⟩
    intro unit' inside path due under
    have due₁ := due.onward moved₁
    obtain rfl | later := List.mem_cons.mp inside
    · obtain ⟨there, plain, end_, ends, past⟩ := due₁
      obtain ⟨listed₁, complete⟩ := bucketsAmong_inv (mapError_eq_ok.mp answered)
      have file : path ∈ (fleet₁.disks me).files.keys :=
        (Versioned.mem_keys _).mpr (Option.isSome_iff_ne_none.mp there)
      obtain ⟨b, member, rfl⟩ := complete path (List.mem_filter.mpr ⟨file, under⟩) (by rw [ends]; rfl)
      have same := (listed₁ b member).2
      rw [ends] at same
      refine ⟨b, kept₃ b (found₂ b member ?_), rfl⟩
      rwa [← Option.some.inj same]
    · exact found₃ unit' later path (due₁.onward moved₂) under

theorem subsystemRounds_mirroring (faithful : Faithful site fleet) (entries : List (String × List String))
    (out : List Bucket) :
    Mirroring site me (fun out' fleet' => Onward site me fleet fleet' ∧ (∀ b ∈ out, b ∈ out') ∧
      ∀ entry ∈ entries, ∀ unit ∈ entry.2, ∀ path, Due site me fleet path →
        isUnder (entry.1 ++ "/" ++ unit) path = true → ∃ b ∈ out', b.path = path)
      (subsystemRounds entries out) fleet := by
  induction entries generalizing fleet out with
  | nil => exact ⟨.refl faithful, fun _ inside => inside, nofun⟩
  | cons entry rest ih =>
    obtain ⟨subsystem, units⟩ := entry
    refine Serves.cut _ (unitRounds_mirroring faithful subsystem units out) ?_
    rintro out₁ fleet₁ ⟨moved₁, kept₁, found₁⟩
    refine Serves.mono ?_ (ih moved₁.faithful out₁)
    rintro out₂ fleet₂ ⟨moved₂, kept₂, found₂⟩
    refine ⟨moved₁.trans moved₂, fun b inside => kept₂ b (kept₁ b inside), ?_⟩
    intro entry' inside unit member path due under
    obtain rfl | later := List.mem_cons.mp inside
    · obtain ⟨b, found, same⟩ := found₁ unit member path due under
      exact ⟨b, kept₂ b found, same⟩
    · exact found₂ entry' later unit member path (due.onward moved₁) under

/-- No closed bucket of the server is overlooked. -/
theorem closedBuckets_mirroring :
    Mirroring site me (fun bs fleet' => Onward site me fleet fleet' ∧
      ∀ path, Due site me fleet path → ∃ b ∈ bs, b.path = path) closedBuckets fleet := by
  refine Serves.look quiet (fun _ => rfl) fun fleet₁ moved₁ => ?_
  refine Serves.mono ?_ (subsystemRounds_mirroring moved₁.faithful _ [])
  rintro bs fleet₂ ⟨moved₂, -, found⟩
  refine ⟨moved₁.trans moved₂, fun path due => ?_⟩
  have due₁ := due.onward moved₁
  obtain ⟨there, plain, end_, ends, -⟩ := id due₁
  obtain ⟨subsystem, unit, epoch, start, parsed, -⟩ := endOf_eq_some ends
  obtain ⟨units, member, inside, under⟩ := listed there parsed plain
  exact found (subsystem, units) member unit inside path due₁ under

/-- Each bucket has a copy at the peer in the end: it had one, or gets one. -/
theorem putRounds_mirroring (faithful : Faithful site fleet) (url : String) (held : List String) (bs : List Bucket)
    (n : Nat) (there : ∀ path ∈ held, (copy fleet (site.host url) me path).isSome) :
    Mirroring site me (fun _ fleet' => Onward site me fleet fleet' ∧
      ∀ b ∈ bs, (copy fleet' (site.host url) me b.path).isSome) (putRounds url me held bs n) fleet := by
  induction bs generalizing fleet n with
  | nil => exact ⟨.refl faithful, nofun⟩
  | cons b rest ih =>
    rw [putRounds]
    split
    next known =>
      refine Serves.mono ?_ (ih faithful n there)
      rintro _ fleet' ⟨moved, copied⟩
      refine ⟨moved, fun b' inside => ?_⟩
      obtain rfl | later := List.mem_cons.mp inside
      · exact moved.copies _ _ (there _ known)
      · exact copied b' later
    next =>
      refine Serves.look quiet (fun _ => rfl) fun fleet₁ moved₁ => ?_
      refine Serves.ofExcept fun bytes answered => ?_
      have read : original fleet₁ me b.path = some bytes := by
        dsimp only [handler] at answered
        split at answered
        next bytes' stored =>
          cases answered
          exact stored
        next => cases answered
      -- between reading the bucket and the PUT, only its own bytes must not change
      rintro fleet₂ ⟨moved₂, same⟩
      have faithful₂ := moved₂.faithful
      dsimp only [handler]
      by_cases up : fleet₂.up (site.host url) = true
      · rw [if_pos up]
        cases taken : ((fleet₂.disks (site.host url)).servePut me b.path bytes).1 with
        | error error =>
          refine ⟨?_, trivial⟩
          have left : ((fleet₂.disks (site.host url)).servePut me b.path bytes).2 = fleet₂.disks (site.host url) :=
            servePut_error taken
          simp only [left, setDisk_self]
          exact .refl faithful₂
        | ok =>
          obtain ⟨copied, arrived⟩ := faithful₂.keepCopy (site.host url) (same.trans read)
          rw [← servePut_ok taken] at copied arrived
          refine ⟨copied, ?_⟩
          have moved := moved₁.trans (moved₂.trans (copied.onward me))
          refine Serves.mono ?_ (ih copied.faithful (n + 1) fun path known => moved.copies _ _ (there path known))
          rintro _ fleet₃ ⟨moved₃, all⟩
          refine ⟨moved.trans moved₃, fun b' inside => ?_⟩
          obtain rfl | later := List.mem_cons.mp inside
          · exact moved₃.copies _ _ arrived
          · exact all b' later
      · rw [if_neg up]
        exact ⟨⟨fun _ _ => rfl, fun _ _ _ kept => kept, rfl, ⟨faithful₂.copies, faithful₂.addressed⟩⟩, trivial⟩

theorem item_ok {α : Type} {dict : Dict α} {key : String} {value : α} (found : dict.item key = .ok value) :
    dict.get? key = some value := by
  unfold Dict.item at found
  cases there : dict.get? key with
  | none =>
    rw [there] at found
    cases found
  | some value' =>
    rw [there] at found
    cases found
    rfl

theorem peerRounds_mirroring (faithful : Faithful site fleet) (live : Dict ResourceBeat)
    (addressed : ∀ entry ∈ live, entry.2.url = site.url entry.1) (peers : List String) (n : Nat) :
    Mirroring site me (fun _ fleet' => Onward site me fleet fleet' ∧
      ∀ peer ∈ peers, ∀ path, Due site me fleet path → (copy fleet' peer me path).isSome)
      (peerRounds me live peers n) fleet := by
  induction peers generalizing fleet n with
  | nil => exact ⟨.refl faithful, nofun⟩
  | cons peer rest ih =>
    refine Serves.value fun hb found => ?_
    have host : site.host hb.url = peer := by
      rw [addressed _ (Dict.mem_of_get? (item_ok found)), site.reaches]
    refine Serves.look quiet (fun _ => rfl) fun fleet₁ moved₁ => ?_
    refine Serves.ofExcept fun held answered => ?_
    have there : ∀ path ∈ held.map Bucket.path, (copy fleet₁ (site.host hb.url) me path).isSome := by
      intro path member
      obtain ⟨b, inside, rfl⟩ := List.mem_map.mp member
      dsimp only [handler] at answered
      split at answered
      · exact mirrored_kept (mapError_eq_ok.mp answered) inside
      · cases answered
    refine Serves.cut _ closedBuckets_mirroring ?_
    rintro bs fleet₂ ⟨moved₂, found₂⟩
    refine Serves.cut _ (putRounds_mirroring moved₂.faithful hb.url _ bs n ?_) ?_
    · exact fun path known => moved₂.copies _ _ (there path known)
    rintro n' fleet₃ ⟨moved₃, copied⟩
    have moved := Onward.trans moved₁ (moved₂.trans moved₃)
    refine Serves.mono ?_ (ih moved₃.faithful n')
    rintro _ fleet₄ ⟨moved₄, others⟩
    refine ⟨moved.trans moved₄, fun peer' inside path due => ?_⟩
    obtain rfl | later := List.mem_cons.mp inside
    · obtain ⟨b, listed, rfl⟩ := found₂ path (due.onward moved₁)
      have arrived := copied b listed
      rw [host] at arrived
      exact moved₄.copies _ _ arrived
    · exact others peer' later path (due.onward moved)

theorem peersOf_ne {live : List String} {copies : Int} {peer : String} (listed : peer ∈ peersOf me live copies) :
    peer ≠ me := by
  have inside : peer ∈ (sorted (live.filter (· ≠ me))).filter (me < ·) ++
      (sorted (live.filter (· ≠ me))).filter (· < me) := by
    unfold peersOf sliceTo at listed
    dsimp only at listed
    split at listed
    · exact List.mem_of_mem_take listed
    · exact List.mem_of_mem_take listed
  obtain after | before := List.mem_append.mp inside
  · exact (of_decide_eq_true (List.mem_filter.mp after).2).ne'
  · exact (of_decide_eq_true (List.mem_filter.mp before).2).ne

/-- After a pass that returns, every peer it names holds every bucket that was closed before. -/
theorem mirror_mirroring (lostAfter : ℚ) :
    Mirroring site me (fun report fleet' =>
      ∀ peer ∈ report.peers, peer ≠ me ∧ ∀ path, Due site me fleet path → (copy fleet' peer me path).isSome)
      (mirror lostAfter me) fleet := by
  refine Serves.cut (fun _ fleet' => Onward site me fleet fleet') ?_ ?_
  · refine Serves.row quiet fun fleet₁ moved₁ => ?_
    refine Serves.value fun copies _ => moved₁
  intro knob fleet₁ moved₁
  dsimp only
  split
  · exact nofun
  · refine Serves.cut (fun live fleet' => Onward site me fleet fleet' ∧ ∀ entry ∈ live, entry.2.url = site.url entry.1)
      ?_ ?_
    · refine Serves.look quiet (fun _ => rfl) fun fleet₂ moved₂ => ?_
      refine Serves.look quiet (fun _ => rfl) fun fleet₃ moved₃ => ?_
      refine Serves.ofExcept fun seen answered => ?_
      dsimp only [handler] at answered
      split at answered
      · cases answered
        refine ⟨moved₁.trans (Onward.trans moved₂ moved₃), fun entry inside => ?_⟩
        exact (Onward.faithful moved₃).addressed entry (List.mem_of_mem_filter inside)
      · cases answered
    · rintro live fleet₂ ⟨moved₂, addressed⟩
      refine Serves.cut _ (peerRounds_mirroring moved₂.faithful live addressed _ 0) ?_
      rintro n fleet₃ ⟨moved₃, copied⟩
      exact fun peer listed => ⟨peersOf_ne listed, fun path due => copied peer listed path (due.onward moved₂)⟩

/-- What a finished mirror pass has seen to. -/
def Mirrored (me : String) (closed : List String) : Outcome → Fleet → Prop
  | .mirrored report, fleet => ∀ peer ∈ report.peers, peer ≠ me ∧ ∀ path ∈ closed, (copy fleet peer me path).isSome
  | _, _ => True

theorem Mirrored.onward {closed : List String} {outcome : Outcome} (mirrored : Mirrored me closed outcome fleet)
    (moved : Onward site me fleet fleet') : Mirrored me closed outcome fleet' := by
  cases outcome with
  | mirrored report =>
    intro peer listed
    exact ⟨(mirrored peer listed).1, fun path due => moved.copies _ _ ((mirrored peer listed).2 path due)⟩
  | removed | pulled => trivial

/-! ## Runs -/

/-- The steps of a run in which nobody retains, restores or loses a disk. -/
def Serving : Event → Prop
  | .begin_ _ job => job = .mirror
  | .wipe _ => False
  | _ => True

/-- No event goes into a bucket of which there is a copy, or whose bytes are about to be sent; a PUT
that arrives late arrives whole, and before its bucket got another event. -/
def Undisturbed (running : Running) : Event → Prop
  | .append server log t _ => ∀ path, relativePath log t = .ok path →
      (∀ holder, copy running.fleet holder server path = none) ∧
        (running.jobs server).label? ≠ some (.sending path)
  | .late which count => ∀ parcel ∈ running.fleet.sent[which]?,
      parcel.bytes.length ≤ count ∧ original running.fleet parcel.server parcel.path = some parcel.bytes
  | _ => True

structure Going (site : Site) (running : Running) : Prop where
  faithful : Faithful site running.fleet
  due : ∀ server, ∀ path ∈ running.closed server, Due site server running.fleet path
  jobs : ∀ server, Mirroring site server (Mirrored server (running.closed server)) (running.jobs server) running.fleet

/-- Every pass may wait while the fleet moves so. -/
def Moves (site : Site) (running : Running) (fleet' : Fleet) : Prop :=
  ∀ server, Onward site server running.fleet fleet' ∧
    ∀ stage, (running.jobs server).label? = some stage → rely site server stage running.fleet fleet'

variable {running : Running}

theorem moves_of_same (disks : fleet'.disks = running.fleet.disks)
    (clock : ∀ server, running.fleet.clock server ≤ fleet'.clock server) (faithful : Faithful site fleet') :
    Moves site running fleet' := by
  intro server
  have files : ∀ path, original fleet' server path = original running.fleet server path := by
    intro path
    rw [original, disks]
    rfl
  have onward : Onward site server running.fleet fleet' := by
    refine ⟨fun path there => by rwa [files], fun holder path there => ?_, clock server, faithful⟩
    rw [copy, disks]
    exact there
  refine ⟨onward, fun stage _ => ?_⟩
  cases stage with
  | idle => exact onward
  | sending path => exact ⟨onward, files path⟩

theorem moves_of_copied (copied : Copied site running.fleet fleet') : Moves site running fleet' :=
  fun server => ⟨copied.onward server, fun stage _ => copied.rely server stage⟩

theorem Faithful.same (faithful : Faithful site fleet) (disks : fleet'.disks = fleet.disks)
    (addressed : ∀ entry ∈ fleet'.beats, entry.2.url = site.url entry.1) : Faithful site fleet' := by
  refine ⟨fun holder server path bytes stored => ?_, addressed⟩
  rw [copy, disks] at stored
  rw [original, disks]
  exact faithful.copies holder server path bytes stored

/-- A line is written into a bucket that has no copy. -/
theorem moves_append (faithful : Faithful site running.fleet) {server path : String} (bytes : Bytes)
    (alone : ∀ holder, copy running.fleet holder server path = none)
    (unsent : (running.jobs server).label? ≠ some (.sending path)) :
    Moves site running (running.fleet.setDisk server ((running.fleet.disks server).write path bytes)) := by
  have files : ∀ server' path', ¬ (server' = server ∧ path' = path) →
      original (running.fleet.setDisk server ((running.fleet.disks server).write path bytes)) server' path' =
        original running.fleet server' path' := by
    intro server' path' other
    rw [original, disks_setDisk]
    split
    next here =>
      rw [here] at other ⊢
      exact Versioned.read_write_other _ _ fun same => other ⟨rfl, same⟩
    next => rfl
  have copies : ∀ holder server' path',
      copy (running.fleet.setDisk server ((running.fleet.disks server).write path bytes)) holder server' path' =
        copy running.fleet holder server' path' := by
    intro holder server' path'
    rw [copy, disks_setDisk]
    split
    next here => rw [here]; rfl
    next => rfl
  have faithful' : Faithful site (running.fleet.setDisk server ((running.fleet.disks server).write path bytes)) := by
    refine ⟨fun holder server' path' bytes' stored => ?_, faithful.addressed⟩
    rw [copies] at stored
    rw [files]
    · exact faithful.copies holder server' path' bytes' stored
    · rintro ⟨rfl, rfl⟩
      rw [alone] at stored
      cases stored
  intro server'
  have onward : Onward site server' running.fleet
      (running.fleet.setDisk server ((running.fleet.disks server).write path bytes)) := by
    refine ⟨fun path' there => ?_, fun holder path' there => by rwa [copies], le_refl _, faithful'⟩
    by_cases here : server' = server ∧ path' = path
    · rw [original, here.1, here.2, disks_setDisk, if_pos rfl]
      show (((running.fleet.disks server).files.write path bytes).read path).isSome
      rw [Versioned.read_write_self]
      rfl
    · rwa [files server' path' here]
  refine ⟨onward, fun stage waits => ?_⟩
  cases stage with
  | idle => exact onward
  | sending path' =>
    refine ⟨onward, files server' path' ?_⟩
    rintro ⟨rfl, rfl⟩
    exact unsent waits

theorem heartbeat_ok {server : String} {beat : ResourceBeat} (made : site.heartbeat fleet server = .ok beat) :
    beat.url = site.url server := by
  obtain ⟨mirrors, -, ends⟩ := bind_eq_ok.mp made
  cases ends
  rfl

theorem moves_move {event : Event} (faithful : Faithful site running.fleet) (serving : Serving event)
    (undisturbed : Undisturbed running event) : Moves site running (running.fleet.move site event) := by
  have same : ∀ fleet' : Fleet, fleet'.disks = running.fleet.disks →
      (∀ server, running.fleet.clock server ≤ fleet'.clock server) →
      (∀ entry ∈ fleet'.beats, entry.2.url = site.url entry.1) → Moves site running fleet' :=
    fun fleet' disks clock addressed => moves_of_same disks clock (faithful.same disks addressed)
  cases event with
  | append server log t line =>
    dsimp only [Fleet.move, Fleet.append]
    split
    next => exact same _ rfl (fun _ => le_refl _) faithful.addressed
    next path found =>
      obtain ⟨alone, unsent⟩ := undisturbed path found
      exact moves_append faithful _ alone unsent
  | late which count =>
    dsimp only [Fleet.move]
    split
    next parcel found =>
      obtain ⟨whole, kept⟩ := undisturbed parcel found
      have copied : Copied site running.fleet (running.fleet.deliver parcel count) := by
        rw [Fleet.deliver, List.take_of_length_le whole]
        obtain refused | taken :=
          servePut_cases (running.fleet.disks parcel.host) parcel.server parcel.path parcel.bytes
        · rw [refused, setDisk_self]
          exact .refl faithful
        · rw [taken]
          exact (faithful.keepCopy parcel.host kept).1
      exact moves_of_copied ⟨copied.files, copied.copies, copied.clock,
        ⟨copied.faithful.copies, copied.faithful.addressed⟩⟩
    next => exact same _ rfl (fun _ => le_refl _) faithful.addressed
  | clock server now =>
    refine same _ rfl (fun server' => ?_) faithful.addressed
    show _ ≤ Function.update running.fleet.clock server _ server'
    rw [Function.update_apply]
    split
    next here =>
      rw [here]
      exact le_max_right _ _
    next => exact le_refl _
  | beat server =>
    dsimp only [Fleet.move]
    split
    next beat made =>
      refine same _ rfl (fun _ => le_refl _) fun entry inside => ?_
      obtain rfl | old := Dict.mem_set inside
      · exact heartbeat_ok made
      · exact faithful.addressed entry old
    next => exact same _ rfl (fun _ => le_refl _) faithful.addressed
  | lose server =>
    exact same _ rfl (fun _ => le_refl _) fun entry inside => faithful.addressed entry (List.mem_of_mem_filter inside)
  | links up | store answers | policy key items | begin_ server job | step server =>
    exact same _ rfl (fun _ => le_refl _) faithful.addressed
  | wipe server => exact serving.elim

theorem Going.moved {fleet' : Fleet} (going : Going site running) (moves : Moves site running fleet') :
    Going site { running with fleet := fleet' } where
  faithful := (moves "").1.faithful
  due server path inside := (going.due server path inside).onward (moves server).1
  jobs server := by
    refine (going.jobs server).moved_post rely_trans ?_ (moves server).2
    intro result ends
    cases result with
    | error error => trivial
    | ok outcome => exact Mirrored.onward ends (moves server).1

theorem Going.step {event : Event} (going : Going site running) (serving : Serving event)
    (undisturbed : Undisturbed running event) : Going site (step site running event) := by
  cases event with
  | begin_ server job =>
    obtain rfl : job = .mirror := serving
    refine ⟨going.faithful, fun server' path inside => ?_, fun server' => ?_⟩
    · by_cases same : server' = server
      · subst same
        have inside' : path ∈ site.closedAt running.fleet server' := by
          simpa only [Platform.Resource.step, Function.update_self] using inside
        exact mem_closedAt.mp inside'
      · refine going.due server' path ?_
        simpa only [Platform.Resource.step, Function.update_of_ne same] using inside
    · by_cases same : server' = server
      · subst same
        simp only [Platform.Resource.step, Function.update_self]
        refine Serves.map (Serves.mono ?_ (mirror_mirroring site.lostAfter))
        intro report fleet' copied peer listed
        exact ⟨(copied peer listed).1, fun path due => (copied peer listed).2 path (mem_closedAt.mp due)⟩
      · simp only [Platform.Resource.step, Function.update_of_ne same]
        exact going.jobs server'
  | step server =>
    cases program : running.jobs server with
    | ret | raise =>
      have still : Proc.advance (handler site server) (running.jobs server, running.fleet) =
          (running.jobs server, running.fleet) := by
        rw [program]
        rfl
      simp only [Platform.Resource.step, still, Function.update_eq_self]
      exact going
    | call stage request next =>
      have own := going.jobs server
      rw [program] at own
      obtain ⟨copied, later⟩ := own running.fleet ((Copied.refl going.faithful).rely server stage)
      have moves : Moves site running (handler site server request running.fleet).2 := moves_of_copied copied
      have going' := going.moved moves
      refine ⟨?_, ?_, fun server' => ?_⟩
      · simp only [Platform.Resource.step, program, Proc.advance]
        exact going'.faithful
      · simp only [Platform.Resource.step, program, Proc.advance]
        exact going'.due
      · by_cases same : server' = server
        · subst same
          simp only [Platform.Resource.step, program, Proc.advance, Function.update_self]
          exact later
        · simp only [Platform.Resource.step, program, Proc.advance, Function.update_of_ne same]
          exact going'.jobs server'
  | append | late | clock | beat | lose | links | store | policy | wipe =>
    exact going.moved (moves_move going.faithful serving undisturbed)

/-! ## Restoring -/

/-- What comes home is what was there, and what the peers hold of it is. -/
structure Coming (base : Fleet) (me : String) (fleet : Fleet) : Prop where
  copies : ∀ holder path bytes, copy fleet holder me path = some bytes → original base me path = some bytes
  files : ∀ path bytes, original fleet me path = some bytes → original base me path = some bytes

/-- What a restore leaves and adds. -/
structure Pulled (me : String) (fleet fleet' : Fleet) : Prop where
  copies : ∀ holder path, copy fleet' holder me path = copy fleet holder me path
  files : ∀ path, (original fleet me path).isSome → (original fleet' me path).isSome

theorem Pulled.refl (me : String) (fleet : Fleet) : Pulled me fleet fleet := ⟨fun _ _ => rfl, fun _ there => there⟩

theorem Pulled.trans {fleet'' : Fleet} (first : Pulled me fleet fleet') (second : Pulled me fleet' fleet'') :
    Pulled me fleet fleet'' :=
  ⟨fun holder path => (second.copies holder path).trans (first.copies holder path),
    fun path there => second.files path (first.files path there)⟩

variable {base : Fleet}

theorem Coming.place (coming : Coming base me fleet) {path : String} {bytes : Bytes}
    (was : original base me path = some bytes) :
    let fleet' := fleet.setDisk me ((fleet.disks me).write path bytes)
    Coming base me fleet' ∧ Pulled me fleet fleet' ∧ (original fleet' me path).isSome := by
  intro fleet'
  have files : ∀ path', original fleet' me path' = if path' = path then some bytes else original fleet me path' := by
    intro path'
    simp only [original, fleet', disks_setDisk, if_pos]
    show ((fleet.disks me).files.write path bytes).read path' = _
    split
    next same => rw [same, Versioned.read_write_self]
    next other => rw [Versioned.read_write_other _ _ other]
  have copies : ∀ holder path', copy fleet' holder me path' = copy fleet holder me path' := by
    intro holder path'
    simp only [copy, fleet', disks_setDisk]
    split
    next here => rw [here]; rfl
    next => rfl
  refine ⟨⟨?_, ?_⟩, ⟨copies, ?_⟩, ?_⟩
  · intro holder path' bytes' stored
    rw [copies] at stored
    exact coming.copies holder path' bytes' stored
  · intro path' bytes' stored
    rw [files] at stored
    split at stored
    next same =>
      rw [same, was]
      exact stored
    next => exact coming.files path' bytes' stored
  · intro path' there
    rw [files]
    split
    · rfl
    · exact there
  · rw [files, if_pos rfl]
    rfl

theorem pullRounds_restoring (coming : Coming base me fleet) (url : String) (paths : List String) (pulled : Nat) :
    Alone site me (fun _ fleet' => Coming base me fleet' ∧ Pulled me fleet fleet' ∧
      ∀ path ∈ paths, (original fleet' me path).isSome) (pullRounds url me paths pulled) fleet := by
  induction paths generalizing fleet pulled with
  | nil => exact ⟨coming, .refl me fleet, nofun⟩
  | cons path rest ih =>
    refine Serves.look unasked (fun _ => rfl) ?_
    rintro fleet rfl
    by_cases there : (original fleet me path).isSome = true
    · show Alone site me _ (if (original fleet me path).isSome = true then pullRounds url me rest pulled else _) fleet
      rw [if_pos there]
      refine Serves.mono ?_ (ih coming pulled)
      rintro _ fleet' ⟨coming', same, home⟩
      refine ⟨coming', same, fun path' inside => ?_⟩
      obtain rfl | later := List.mem_cons.mp inside
      · exact same.files _ there
      · exact home path' later
    · show Alone site me _ (if (original fleet me path).isSome = true then pullRounds url me rest pulled else _) fleet
      rw [if_neg there]
      refine Serves.look unasked (fun _ => rfl) ?_
      rintro fleet rfl
      refine Serves.ofExcept fun bytes answered => ?_
      have copied : copy fleet (site.host url) me path = some bytes := fetched answered
      obtain ⟨coming₁, same₁, home₁⟩ := coming.place (coming.copies _ _ _ copied)
      rintro fleet rfl
      refine ⟨trivial, ?_⟩
      refine Serves.mono ?_ (ih coming₁ (pulled + 1))
      rintro _ fleet' ⟨coming', same, home⟩
      refine ⟨coming', same₁.trans same, fun path' inside => ?_⟩
      obtain rfl | later := List.mem_cons.mp inside
      · exact same.files _ home₁
      · exact home path' later

/-- The peers whose copies a restore asks for. -/
def Asked (me : String) (entry : String × ResourceBeat) : Prop :=
  entry.1 ≠ me ∧ (entry.2.mirrors.get? me).isSome

theorem restoreRounds_restoring (coming : Coming base me fleet)
    (entries : List (String × ResourceBeat)) (pulled : Nat) :
    Alone site me (fun _ fleet' => Coming base me fleet' ∧ Pulled me fleet fleet' ∧
      ∀ entry ∈ entries, Asked me entry → ∀ path, (copy fleet (site.host entry.2.url) me path).isSome →
        (site.endOf path).isSome → (original fleet' me path).isSome) (restoreRounds me entries pulled) fleet := by
  induction entries generalizing fleet pulled with
  | nil => exact ⟨coming, .refl me fleet, nofun⟩
  | cons entry rest ih =>
    obtain ⟨peer, hb⟩ := entry
    rw [restoreRounds]
    split
    next skipped =>
      refine Serves.mono ?_ (ih coming pulled)
      rintro _ fleet' ⟨coming', same, home⟩
      refine ⟨coming', same, fun entry inside asked => ?_⟩
      obtain rfl | later := List.mem_cons.mp inside
      · obtain own | silent := skipped
        · exact absurd own asked.1
        · have named := asked.2
          rw [Option.isNone_iff_eq_none.mp silent] at named
          cases named
      · exact home entry later asked
    next =>
      refine Serves.look unasked (fun _ => rfl) ?_
      rintro fleet rfl
      refine Serves.ofExcept fun held answered => ?_
      refine Serves.cut _ (pullRounds_restoring coming hb.url _ pulled) ?_
      rintro pulled' fleet₁ ⟨coming₁, same₁, home₁⟩
      refine Serves.mono ?_ (ih coming₁ pulled')
      rintro _ fleet₂ ⟨coming₂, same₂, home₂⟩
      refine ⟨coming₂, same₁.trans same₂, fun entry inside asked path copied bucket => ?_⟩
      obtain rfl | later := List.mem_cons.mp inside
      · dsimp only [handler] at answered
        split at answered
        · obtain ⟨b, inside', rfl⟩ := (bucketsAmong_inv (mapError_eq_ok.mp answered)).2 path
            ((Versioned.mem_keys _).mpr (Option.isSome_iff_ne_none.mp copied)) bucket
          refine same₂.files _ (home₁ _ ((List.mem_insertionSort _).mpr (List.mem_map_of_mem inside')))
        · cases answered
      · exact home₂ entry later asked path (by rwa [same₁.copies]) bucket

theorem restore_restoring (coming : Coming base me fleet) (lostAfter : ℚ) :
    Alone site me (fun _ fleet' => Coming base me fleet' ∧
      ∀ entry ∈ Platform.EventIndex.liveAt (fleet.clock me) lostAfter fleet.beats, Asked me entry →
        ∀ path, (copy fleet (site.host entry.2.url) me path).isSome → (site.endOf path).isSome →
          (original fleet' me path).isSome) (restore lostAfter me) fleet := by
  refine Serves.cut (fun live fleet' => fleet' = fleet ∧
    live = Platform.EventIndex.liveAt (fleet.clock me) lostAfter fleet.beats) ?_ ?_
  · refine Serves.look unasked (fun _ => rfl) ?_
    rintro fleet rfl
    refine Serves.look unasked (fun _ => rfl) ?_
    rintro fleet rfl
    refine Serves.ofExcept fun seen answered => ?_
    dsimp only [handler] at answered
    split at answered
    · cases answered
      exact ⟨rfl, rfl⟩
    · cases answered
  · rintro live fleet ⟨rfl, rfl⟩
    refine Serves.mono ?_ (restoreRounds_restoring coming _ 0)
    exact fun _ fleet' ends => ⟨ends.1, ends.2.2⟩

/-- Copies may be missing, but none is wrong, and nobody points elsewhere. -/
theorem Faithful.coming (faithful : Faithful site base) (me : String) :
    Coming base me (base.move site (.wipe me)) ∧
      ∀ holder path, holder ≠ me → copy (base.move site (.wipe me)) holder me path = copy base holder me path := by
  have copies : ∀ holder path, copy (base.move site (.wipe me)) holder me path =
      if holder = me then none else copy base holder me path := by
    intro holder path
    show (((base.setDisk me Disk.empty).disks holder).copiesOf me).read path = _
    rw [disks_setDisk]
    split <;> rfl
  refine ⟨⟨fun holder path bytes stored => ?_, fun path bytes stored => ?_⟩, fun holder path other => ?_⟩
  · rw [copies] at stored
    split at stored
    · cases stored
    · exact faithful.copies holder me path bytes stored
  · have empty : original (base.move site (.wipe me)) me path = none := by
      show ((base.setDisk me Disk.empty).disks me).files.read path = none
      rw [disks_setDisk, if_pos rfl]
      rfl
    rw [empty] at stored
    cases stored
  · rw [copies, if_neg other]

/-- A site on which nothing was copied yet. -/
structure Unmirrored (site : Site) (fleet : Fleet) : Prop where
  copies : ∀ holder server path, copy fleet holder server path = none
  addressed : ∀ entry ∈ fleet.beats, entry.2.url = site.url entry.1

theorem Unmirrored.going (unmirrored : Unmirrored site fleet) : Going site (start fleet) where
  faithful := by
    refine ⟨fun holder server path bytes stored => ?_, unmirrored.addressed⟩
    have nothing := unmirrored.copies holder server path
    rw [start] at stored
    rw [stored] at nothing
    cases nothing
  due := nofun
  jobs _ := trivial

/-- A pass of `a`, with the bucket in its hands. -/
def untilPut : List Event :=
  [.clock "a" 1000, .clock "b" 1000, .beat "a", .beat "b", .begin_ "a" .mirror] ++ List.replicate 8 (.step "a")

/-- The PUT fails at `a`. -/
def failing : List Event := [.links fun _ => false, .step "a", .links fun _ => true]

def failed : Running := (event 100 [97, 10] :: (untilPut ++ failing)).foldl (step twoServers) (start nothingYet)

def again : List Event := .begin_ "a" .mirror :: List.replicate 9 (.step "a")

/-- A run in which the PUT arrives late, as far as its first bytes. -/
def interrupted (count : Nat) : List Event :=
  event 100 [97, 10] :: (untilPut ++ failing) ++ .late 0 count :: again

/-- The steps that no condition is about. -/
def Free : Event → Prop
  | .append _ _ _ _ | .late _ _ => False
  | _ => True

instance : DecidablePred Free
  | .append _ _ _ _ | .late _ _ => .isFalse id
  | .begin_ _ _ | .step _ | .clock _ _ | .beat _ | .lose _ | .links _ | .store _ | .policy _ _ | .wipe _ => .isTrue trivial

instance : DecidablePred Serving
  | .begin_ _ .mirror => .isTrue rfl
  | .begin_ _ .retain | .begin_ _ .restore => .isFalse nofun
  | .wipe _ => .isFalse id
  | .append _ _ _ _ | .step _ | .late _ _ | .clock _ _ | .beat _ | .lose _ | .links _ | .store _ | .policy _ _ =>
    .isTrue trivial

theorem along_free {events : List Event} (free : ∀ event ∈ events, Free event) (running : Running) :
    Along (step site) Undisturbed events running := by
  induction events generalizing running with
  | nil => exact .nil
  | cons event rest ih =>
    obtain ⟨here, later⟩ := List.forall_mem_cons.mp free
    refine .cons ?_ (ih later _)
    cases event with
    | append | late => exact here.elim
    | _ => trivial

end EdgeVms.Verified.Mirrors
