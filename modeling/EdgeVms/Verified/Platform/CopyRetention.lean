import EdgeVms.Verified.Platform.Passes
import EdgeVms.Process.Run

/-! # Retention and the copies

A retain pass removes the expired buckets of its own server and looks at no copy.  Once all
servers have retained, expired buckets are gone for good exactly when nobody held a copy of
one before and no PUT of one was on its way.
-/

namespace EdgeVms.Verified.CopyRetention

open Process Python
open Platform (Tree Bytes Bucket EventLog ResourceBeat Key Rows parseBucket)
open Platform.Resource
open Passes

variable {site : Site} {me : String} {fleet fleet' : Fleet}

/-! ## What has expired -/

def daysIn (rows : Rows) (key : Key) : Option (Except Error Floating) :=
  (((rows.read key).getD []).get? "days").map fun days => days.toFloat

/-- The days of the unit, else of the subsystem, else a year. -/
def daysOf (rows : Rows) (subsystem unit : String) : Except Error Floating :=
  ((daysIn rows [subsystem, "retention", unit]).or (daysIn rows [subsystem, "retention"])).getD (.ok (.finite 365))

/-- A bucket of a subsystem, older at `now` than the days of its unit. -/
def Expired (site : Site) (rows : Rows) (now : ℚ) (path : String) : Prop :=
  path.toList.head? ≠ some '.' ∧ ∃ subsystem unit epoch start days,
    parseBucket path = .ok (some (subsystem, unit, epoch, start)) ∧ daysOf rows subsystem unit = .ok days ∧
      isExpired days now (start.timestamp + site.bucketSeconds) = true

/-! ## A retain pass, undisturbed -/

/-- Files of the server went, and nothing else changed. -/
structure Pruned (me : String) (fleet fleet' : Fleet) : Prop where
  kept : ∀ server path, (server = me → original fleet' me path ≠ none) →
    original fleet' server path = original fleet server path
  copies : ∀ holder server path, copy fleet' holder server path = copy fleet holder server path
  clock : fleet'.clock = fleet.clock
  rows : fleet'.rows = fleet.rows
  sent : fleet'.sent = fleet.sent

theorem Pruned.refl (me : String) (fleet : Fleet) : Pruned me fleet fleet :=
  ⟨fun _ _ _ => rfl, fun _ _ _ => rfl, rfl, rfl, rfl⟩

theorem Pruned.gone (pruned : Pruned me fleet fleet') {server path : String}
    (none_ : original fleet server path = none) :
    original fleet' server path = none := by
  by_contra there
  rw [pruned.kept server path] at there
  · exact there none_
  · rintro rfl
    exact there

theorem Pruned.trans {fleet'' : Fleet} (first : Pruned me fleet fleet') (second : Pruned me fleet' fleet'') :
    Pruned me fleet fleet'' where
  kept server path there := by
    rw [second.kept server path there]
    refine first.kept server path ?_
    rintro rfl none_
    exact there rfl (second.gone none_)
  copies holder server path := (second.copies holder server path).trans (first.copies holder server path)
  clock := second.clock.trans first.clock
  rows := second.rows.trans first.rows
  sent := second.sent.trans first.sent

theorem pruned_remove (me path : String) (fleet : Fleet) :
    let fleet' := fleet.setDisk me ((fleet.disks me).remove path)
    Pruned me fleet fleet' ∧ original fleet' me path = none := by
  intro fleet'
  have own : ∀ path', original fleet' me path' = if path' = path then none else original fleet me path' := by
    intro path'
    simp only [original, fleet', disks_setDisk, if_pos]
    show ((fleet.disks me).files.remove path).read path' = _
    split
    next same => rw [same, Versioned.read_remove, Function.update_self]
    next other => exact Versioned.read_remove_other _ other
  refine ⟨⟨fun server path' there => ?_, fun holder server path' => ?_, rfl, rfl, rfl⟩, ?_⟩
  · by_cases here : server = me
    · subst here
      have present := there rfl
      rw [own] at present ⊢
      split at present
      · exact absurd rfl present
      next other => rw [if_neg other]
    · simp only [original, fleet', disks_setDisk, if_neg here]
  · simp only [copy, fleet', disks_setDisk]
    split
    next here => rw [here]; rfl
    next => rfl
  · rw [own, if_pos rfl]

theorem removeRounds_alone (days : Floating) (bs : List Bucket) (removed : Nat) :
    Alone site me (fun _ fleet' => Pruned me fleet fleet' ∧
      ∀ b ∈ bs, isExpired days (fleet.clock me) b.end_ = true → original fleet' me b.path = none)
      (removeRounds days bs removed) fleet := by
  induction bs generalizing fleet removed with
  | nil => exact ⟨.refl me fleet, nofun⟩
  | cons b rest ih =>
    refine Serves.look unasked (fun _ => rfl) ?_
    rintro fleet rfl
    by_cases expired : isExpired days (fleet.clock me) b.end_ = true
    · show Alone site me _ (if isExpired days (fleet.clock me) b.end_ = true then _ else _) fleet
      rw [if_pos expired]
      rintro fleet rfl
      refine ⟨trivial, ?_⟩
      dsimp only [handler]
      split
      next there =>
        obtain ⟨pruned, gone⟩ := pruned_remove me b.path fleet
        refine Serves.mono ?_ (ih (removed + 1))
        rintro _ fleet' ⟨pruned', others⟩
        refine ⟨pruned.trans pruned', fun b' inside expired' => ?_⟩
        obtain rfl | later := List.mem_cons.mp inside
        · exact pruned'.gone gone
        · exact others b' later expired'
      next => trivial
    · show Alone site me _ (if isExpired days (fleet.clock me) b.end_ = true then _ else _) fleet
      rw [if_neg expired]
      refine Serves.mono ?_ (ih removed)
      rintro _ fleet' ⟨pruned, others⟩
      refine ⟨pruned, fun b' inside expired' => ?_⟩
      obtain rfl | later := List.mem_cons.mp inside
      · exact absurd expired' expired
      · exact others b' later expired'

theorem daysRounds_alone (default : Floating) (keys : List Key) :
    Alone site me (fun days fleet' => fleet' = fleet ∧
      ((keys.filterMap (daysIn fleet.rows)).head?).getD (.ok default) = .ok days) (daysRounds default keys) fleet := by
  induction keys with
  | nil => exact ⟨rfl, rfl⟩
  | cons key rest ih =>
    refine Serves.row unasked ?_
    rintro fleet rfl
    cases found : ((fleet.rows.read key).getD []).get? "days" with
    | none =>
      have skipped : daysIn fleet.rows key = none := by rw [daysIn, found]; rfl
      refine Serves.mono ?_ ih
      rintro days fleet' ⟨same, ends⟩
      rw [List.filterMap_cons, skipped]
      exact ⟨same, ends⟩
    | some text =>
      have taken : daysIn fleet.rows key = some text.toFloat := by rw [daysIn, found]; rfl
      rw [List.filterMap_cons, taken]
      show Alone site me _ (Platform.Resource.value text.toFloat) fleet
      cases converted : text.toFloat with
      | error error => trivial
      | ok days => exact ⟨rfl, rfl⟩

theorem retentionDays_alone (subsystem unit : String) :
    Alone site me (fun days fleet' => fleet' = fleet ∧ daysOf fleet.rows subsystem unit = .ok days)
      (retentionDays subsystem unit) fleet := by
  refine Serves.mono ?_ (daysRounds_alone (.finite 365) [[subsystem, "retention", unit], [subsystem, "retention"]])
  rintro days fleet' ⟨same, ends⟩
  refine ⟨same, ?_⟩
  rw [daysOf, ← ends]
  cases first : daysIn fleet.rows [subsystem, "retention", unit] with
  | some days => simp [List.filterMap_cons, first]
  | none =>
    cases second : daysIn fleet.rows [subsystem, "retention"] with
    | some days => simp [first, second]
    | none => simp [first, second]

/-- An expired bucket in the listing of the unit. -/
def ExpiredIn (site : Site) (fleet : Fleet) (now : ℚ) (subsystem unit path : String) : Prop :=
  isUnder (subsystem ++ "/" ++ unit) path = true ∧ ∃ end_ days, site.endOf path = some end_ ∧
    daysOf fleet.rows subsystem unit = .ok days ∧ isExpired days now end_ = true

theorem retainUnits_alone (subsystem : String) (units : List String) (removed : Nat) :
    Alone site me (fun _ fleet' => Pruned me fleet fleet' ∧
      ∀ unit ∈ units, ∀ path, ExpiredIn site fleet (fleet.clock me) subsystem unit path →
        original fleet' me path = none) (retainUnits subsystem units removed) fleet := by
  induction units generalizing fleet removed with
  | nil => exact ⟨.refl me fleet, nofun⟩
  | cons unit rest ih =>
    refine Serves.cut _ (retentionDays_alone subsystem unit) ?_
    rintro days fleet ⟨rfl, chosen⟩
    refine Serves.look unasked (fun _ => rfl) ?_
    rintro fleet rfl
    refine Serves.ofExcept fun bs answered => ?_
    obtain ⟨listed₁, complete⟩ := bucketsAmong_inv (mapError_eq_ok.mp answered)
    refine Serves.cut _ (removeRounds_alone days bs removed) ?_
    rintro removed' fleet₁ ⟨pruned₁, gone₁⟩
    refine Serves.mono ?_ (ih removed')
    rintro _ fleet₂ ⟨pruned₂, gone₂⟩
    refine ⟨pruned₁.trans pruned₂, fun unit' inside path expired => ?_⟩
    obtain rfl | later := List.mem_cons.mp inside
    · refine pruned₂.gone ?_
      obtain ⟨under, end_, days', ends, chosen', old⟩ := expired
      rw [chosen] at chosen'
      cases chosen'
      cases there : original fleet me path with
      | none => exact pruned₁.gone there
      | some bytes =>
        have file : path ∈ (fleet.disks me).files.keys := (Versioned.mem_keys _).mpr (by
          show original fleet me path ≠ none
          rw [there]
          exact nofun)
        obtain ⟨b, member, rfl⟩ := complete path (List.mem_filter.mpr ⟨file, under⟩) (by rw [ends]; rfl)
        have same := (listed₁ b member).2
        rw [ends] at same
        refine gone₁ b member ?_
        rwa [← Option.some.inj same]
    · refine gone₂ unit' later path ?_
      obtain ⟨under, end_, days', ends, chosen', old⟩ := expired
      exact ⟨under, end_, days', ends, by rw [pruned₁.rows]; exact chosen', by rw [pruned₁.clock]; exact old⟩

theorem retainRounds_alone (entries : List (String × List String)) (removed : Nat) :
    Alone site me (fun _ fleet' => Pruned me fleet fleet' ∧
      ∀ entry ∈ entries, ∀ unit ∈ entry.2, ∀ path, ExpiredIn site fleet (fleet.clock me) entry.1 unit path →
        original fleet' me path = none) (retainRounds entries removed) fleet := by
  induction entries generalizing fleet removed with
  | nil => exact ⟨.refl me fleet, nofun⟩
  | cons entry rest ih =>
    obtain ⟨subsystem, units⟩ := entry
    refine Serves.cut _ (retainUnits_alone subsystem units removed) ?_
    rintro removed' fleet₁ ⟨pruned₁, gone₁⟩
    refine Serves.mono ?_ (ih removed')
    rintro _ fleet₂ ⟨pruned₂, gone₂⟩
    refine ⟨pruned₁.trans pruned₂, fun entry' inside unit member path expired => ?_⟩
    obtain rfl | later := List.mem_cons.mp inside
    · exact pruned₂.gone (gone₁ unit member path expired)
    · refine gone₂ entry' later unit member path ?_
      obtain ⟨under, end_, days, ends, chosen, old⟩ := expired
      exact ⟨under, end_, days, ends, by rw [pruned₁.rows]; exact chosen, by rw [pruned₁.clock]; exact old⟩

/-- No expired bucket of the server itself is overlooked. -/
theorem retain_alone :
    Alone site me (fun _ fleet' => Pruned me fleet fleet' ∧
      ∀ path, Expired site fleet.rows (fleet.clock me) path → original fleet' me path = none) retain fleet := by
  refine Serves.look unasked (fun _ => rfl) ?_
  rintro fleet rfl
  refine Serves.mono ?_ (retainRounds_alone _ 0)
  rintro _ fleet' ⟨pruned, gone⟩
  refine ⟨pruned, fun path expired => ?_⟩
  obtain ⟨plain, subsystem, unit, epoch, start, days, parsed, chosen, old⟩ := expired
  by_contra there
  have was : (original fleet me path).isSome := by
    rw [← pruned.kept me path fun _ => there]
    exact Option.isSome_iff_ne_none.mpr there
  obtain ⟨units, member, inside, under⟩ := listed was parsed plain
  refine there (gone (subsystem, units) member unit inside path ⟨under, _, days, ?_, chosen, old⟩)
  rw [Site.endOf, parsed]

/-- Every server retains, with its clock at `now`. -/
def retainAll (site : Site) (now : ℚ) : List String → Fleet → Except Fault Fleet
  | [], fleet => .ok fleet
  | server :: rest, fleet =>
    match retain.run (handler site server) { fleet with clock := Function.update fleet.clock server now } with
    | (.ok _, fleet') => retainAll site now rest fleet'
    | (.error error, _) => .error error

/-- What a round of retain passes leaves. -/
structure Retained (site : Site) (now : ℚ) (servers : List String) (fleet fleet' : Fleet) : Prop where
  gone : ∀ server path, original fleet server path = none → original fleet' server path = none
  expired : ∀ server ∈ servers, ∀ path, Expired site fleet.rows now path → original fleet' server path = none
  copies : ∀ holder server path, copy fleet' holder server path = copy fleet holder server path
  rows : fleet'.rows = fleet.rows
  sent : fleet'.sent = fleet.sent

theorem retainAll_retained {now : ℚ} {servers : List String} (done : retainAll site now servers fleet = .ok fleet') :
    Retained site now servers fleet fleet' := by
  induction servers generalizing fleet with
  | nil =>
    cases done
    exact ⟨fun _ _ none_ => none_, nofun, fun _ _ _ => rfl, rfl, rfl⟩
  | cons server rest ih =>
    rw [retainAll] at done
    split at done
    next removed fleet₁ ran =>
      have alone : Alone site server _ retain { fleet with clock := Function.update fleet.clock server now } :=
        retain_alone
      have ended := alone.run
      rw [ran] at ended
      obtain ⟨pruned, swept⟩ := ended
      obtain ⟨gone, expired, copies, rows, sent⟩ := ih done
      refine ⟨fun server' path none_ => gone server' path (pruned.gone none_), ?_, ?_, rows.trans pruned.rows,
        sent.trans pruned.sent⟩
      · intro server' member path old
        obtain rfl | later := List.mem_cons.mp member
        · refine gone _ path (swept path ?_)
          show Expired site fleet.rows (Function.update fleet.clock _ now _) path
          rw [Function.update_self]
          exact old
        · refine expired server' later path ?_
          rw [pruned.rows]
          exact old
      · exact fun holder server' path => (copies holder server' path).trans (pruned.copies holder server' path)
    next => cases done

/-! ## What never comes back -/

/-- A PUT that no resource takes. -/
def Refused (parcel : Parcel) : Prop :=
  (isRefused (parcel.server ++ "/" ++ parcel.path) parcel.path || parcel.server = "") = true

/-- None of these files is anywhere, and none is on its way. -/
structure Clear (gone : String → Prop) (fleet : Fleet) : Prop where
  files : ∀ server path, gone path → original fleet server path = none
  copies : ∀ holder server path, gone path → copy fleet holder server path = none
  sent : ∀ parcel ∈ fleet.sent, gone parcel.path → Refused parcel

variable {gone : String → Prop} {α β : Type}

theorem Clear.same (clear : Clear gone fleet) (disks : fleet'.disks = fleet.disks) (sent : fleet'.sent = fleet.sent) :
    Clear gone fleet' := by
  refine ⟨fun server path old => ?_, fun holder server path old => ?_, fun parcel waits old => ?_⟩
  · rw [original, disks]
    exact clear.files server path old
  · rw [copy, disks]
    exact clear.copies holder server path old
  · rw [sent] at waits
    exact clear.sent parcel waits old

theorem Clear.setDisk (clear : Clear gone fleet) {server : String} {disk : Disk}
    (files : ∀ path, gone path → disk.files.read path = none)
    (copies : ∀ owner path, gone path → (disk.copiesOf owner).read path = none) :
    Clear gone (fleet.setDisk server disk) := by
  refine ⟨fun server' path old => ?_, fun holder owner path old => ?_, clear.sent⟩
  · rw [original, disks_setDisk]
    split
    · exact files path old
    · exact clear.files server' path old
  · rw [copy, disks_setDisk]
    split
    · exact copies owner path old
    · exact clear.copies holder owner path old

theorem Clear.keepCopy (clear : Clear gone fleet) (holder server : String) {path : String} (bytes : Bytes)
    (fresh : ¬ gone path) : Clear gone (fleet.setDisk holder ((fleet.disks holder).keepCopy server path bytes)) := by
  refine clear.setDisk (fun path' old => clear.files holder path' old) fun owner path' old => ?_
  rw [copiesOf_keepCopy]
  split
  next here =>
    rw [here.2] at old
    exact absurd old fresh
  next => exact clear.copies holder owner path' old

theorem Clear.servePut (clear : Clear gone fleet) (holder server : String) {path : String} (bytes : Bytes)
    (fresh : ¬ gone path) :
    Clear gone (fleet.setDisk holder ((fleet.disks holder).servePut server path bytes).2) := by
  obtain refused | taken := servePut_cases (fleet.disks holder) server path bytes
  · rw [refused, setDisk_self]
    exact clear
  · rw [taken]
    exact clear.keepCopy holder server bytes fresh

theorem Clear.write (clear : Clear gone fleet) (server : String) {path : String} (bytes : Bytes) (fresh : ¬ gone path) :
    Clear gone (fleet.setDisk server ((fleet.disks server).write path bytes)) := by
  refine clear.setDisk (fun path' old => ?_) fun owner path' old => clear.copies server owner path' old
  show ((fleet.disks server).files.write path bytes).read path' = none
  rw [Versioned.read_write_other]
  · exact clear.files server path' old
  · rintro rfl
    exact fresh old

/-- Every request only looks. -/
def Looks : Program α → Prop
  | .call _ (.remove _) _ => False
  | .call _ (.place _ _) _ => False
  | .call _ (.put _ _ _ _) _ => False
  | .call _ _ next => ∀ answer, Looks (next answer)
  | _ => True

namespace Looks

theorem bind {p : Program α} {f : α → Program β} (first : Looks p) (later : ∀ value, Looks (f value)) :
    Looks (p >>= f) := by
  induction p with
  | ret value => exact later value
  | raise error => trivial
  | call stage request next ih =>
    cases request with
    | remove path | place path bytes | put url server path bytes => exact first.elim
    | _ => exact fun answer => ih answer (first answer)

theorem ofExcept (result : Except Fault α) : Looks (Proc.ofExcept result : Program α) := by
  cases result <;> trivial

theorem value (result : Except Error α) : Looks (Platform.Resource.value result : Program α) := by
  cases result <;> trivial

theorem row (key : Key) : Looks (Platform.Resource.row key) := bind (fun _ => trivial) ofExcept

theorem mirrorSettings : Looks Platform.Resource.mirrorSettings :=
  bind (row _) fun _ => bind (value _) fun _ => trivial

theorem daysRounds (default : Floating) (keys : List Key) : Looks (Platform.Resource.daysRounds default keys) := by
  induction keys with
  | nil => trivial
  | cons key rest ih =>
    refine bind (row key) fun items => ?_
    split
    · exact value _
    · exact ih

theorem closedRounds (bs out : List Bucket) : Looks (Platform.Resource.closedRounds bs out) := by
  induction bs generalizing out with
  | nil => trivial
  | cons b rest ih => exact fun _ => ih _

theorem unitRounds (subsystem : String) (units : List String) (out : List Bucket) :
    Looks (Platform.Resource.unitRounds subsystem units out) := by
  induction units generalizing out with
  | nil => trivial
  | cons unit rest ih =>
    refine bind (fun _ => trivial) fun answer => bind (ofExcept answer) fun bs => ?_
    exact bind (closedRounds bs out) fun _ => ih _

theorem subsystemRounds (entries : List (String × List String)) (out : List Bucket) :
    Looks (Platform.Resource.subsystemRounds entries out) := by
  induction entries generalizing out with
  | nil => trivial
  | cons entry rest ih => exact bind (unitRounds _ _ out) fun _ => ih _

theorem closedBuckets : Looks Platform.Resource.closedBuckets := fun _ => subsystemRounds _ _

theorem liveResources (lostAfter : ℚ) : Looks (Platform.Resource.liveResources lostAfter) :=
  bind (fun _ => trivial) fun _ => bind (fun _ => trivial) fun answer => bind (ofExcept answer) fun _ => trivial

end Looks

/-- The pass brings none of these files anywhere, if nobody else does. -/
abbrev Sparing (site : Site) (me : String) (gone : String → Prop) (p : Program α) (fleet : Fleet) : Prop :=
  Serves site me (fun _ _ fleet' => Clear gone fleet') (fun _ fleet' => Clear gone fleet') (fun _ _ => True) p fleet

namespace Sparing

theorem quiet (_ fleet' : Fleet) (clear : Clear gone fleet') : Clear gone fleet' := clear

theorem looks {p : Program α} (looks : Looks p) : Sparing site me gone p fleet := by
  induction p generalizing fleet with
  | ret value | raise error => trivial
  | call stage request next ih =>
    intro fleet' clear
    cases request with
    | remove path | place path bytes | put url server path bytes => exact looks.elim
    | _ => exact ⟨clear, ih _ (looks _)⟩

theorem cut {p : Program α} {f : α → Program β} (first : Sparing site me gone p fleet)
    (later : ∀ value fleet', Sparing site me gone (f value) fleet') : Sparing site me gone (p >>= f) fleet :=
  Serves.cut _ first fun value fleet' _ => later value fleet'

theorem removeRounds (days : Floating) (bs : List Bucket) (removed : Nat) :
    Sparing site me gone (Platform.Resource.removeRounds days bs removed) fleet := by
  induction bs generalizing fleet removed with
  | nil => trivial
  | cons b rest ih =>
    refine Serves.look quiet (fun _ => rfl) fun fleet₁ clear₁ => ?_
    show Sparing site me gone (if isExpired days (fleet₁.clock me) b.end_ = true then _ else _) fleet₁
    split
    · intro fleet₂ clear₂
      dsimp only [handler]
      split
      · refine ⟨clear₂.setDisk (fun path old => ?_) fun owner path old => clear₂.copies me owner path old, ih _⟩
        show ((fleet₂.disks me).files.remove b.path).read path = none
        by_contra there
        obtain ⟨bytes, stored⟩ := Option.ne_none_iff_exists'.mp there
        have was := clear₂.files me path old
        rw [original, Versioned.read_of_read_remove stored] at was
        cases was
      · exact ⟨clear₂, trivial⟩
    · exact ih removed

theorem retainUnits (subsystem : String) (units : List String) (removed : Nat) :
    Sparing site me gone (Platform.Resource.retainUnits subsystem units removed) fleet := by
  induction units generalizing fleet removed with
  | nil => trivial
  | cons unit rest ih =>
    refine cut (looks (Looks.daysRounds _ _)) fun days fleet₁ => ?_
    refine Serves.look quiet (fun _ => rfl) fun fleet₂ _ => ?_
    refine Serves.ofExcept fun bs _ => ?_
    exact cut (removeRounds days bs removed) fun _ _ => ih _

theorem retain : Sparing site me gone Platform.Resource.retain fleet := by
  have rounds : ∀ (entries : List (String × List String)) (removed : Nat) (fleet : Fleet),
      Sparing site me gone (retainRounds entries removed) fleet := by
    intro entries
    induction entries with
    | nil => exact fun _ _ => trivial
    | cons entry rest ih => exact fun removed fleet => cut (retainUnits _ _ removed) fun _ _ => ih _ _
  exact Serves.look quiet (fun _ => rfl) fun fleet' _ => rounds _ 0 fleet'

theorem putRounds (url : String) (held : List String) (bs : List Bucket) (n : Nat) :
    Sparing site me gone (Platform.Resource.putRounds url me held bs n) fleet := by
  induction bs generalizing fleet n with
  | nil => trivial
  | cons b rest ih =>
    rw [Platform.Resource.putRounds]
    split
    · exact ih n
    · refine Serves.look quiet (fun _ => rfl) fun fleet₁ clear₁ => ?_
      refine Serves.ofExcept fun bytes answered => ?_
      -- only a file that is there is sent
      have fresh : ¬ gone b.path := by
        intro old
        have absent := clear₁.files me b.path old
        dsimp only [handler] at answered
        rw [original] at absent
        rw [absent] at answered
        cases answered
      intro fleet₂ clear₂
      dsimp only [handler]
      split
      · refine ⟨clear₂.servePut _ _ bytes fresh, ?_⟩
        exact Serves.ofExcept fun _ _ => ih _
      · refine ⟨⟨clear₂.files, clear₂.copies, fun parcel waits old => ?_⟩, trivial⟩
        obtain before | new := List.mem_append.mp waits
        · exact clear₂.sent parcel before old
        · rw [List.mem_singleton.mp new] at old
          exact absurd old fresh

theorem peerRounds (live : Dict ResourceBeat) (peers : List String) (n : Nat) :
    Sparing site me gone (Platform.Resource.peerRounds me live peers n) fleet := by
  induction peers generalizing fleet n with
  | nil => trivial
  | cons peer rest ih =>
    refine Serves.value fun hb _ => ?_
    refine Serves.look quiet (fun _ => rfl) fun fleet₁ _ => ?_
    refine Serves.ofExcept fun held _ => ?_
    refine cut (looks Looks.closedBuckets) fun bs fleet₂ => ?_
    exact cut (putRounds _ _ bs n) fun _ _ => ih _

theorem mirror (lostAfter : ℚ) : Sparing site me gone (Platform.Resource.mirror lostAfter me) fleet := by
  refine cut (looks Looks.mirrorSettings) fun knob fleet₁ => ?_
  dsimp only
  split
  · trivial
  · refine cut (looks (Looks.liveResources lostAfter)) fun live fleet₂ => ?_
    exact cut (peerRounds live _ 0) fun _ _ => trivial

theorem pullRounds (url : String) (paths : List String) (pulled : Nat) :
    Sparing site me gone (Platform.Resource.pullRounds url me paths pulled) fleet := by
  induction paths generalizing fleet pulled with
  | nil => trivial
  | cons path rest ih =>
    refine Serves.look quiet (fun _ => rfl) fun fleet₁ clear₁ => ?_
    show Sparing site me gone (if (original fleet₁ me path).isSome = true then _ else _) fleet₁
    split
    · exact ih pulled
    · refine Serves.look quiet (fun _ => rfl) fun fleet₂ clear₂ => ?_
      refine Serves.ofExcept fun bytes answered => ?_
      -- only a copy that is there comes home
      have fresh : ¬ gone path := by
        intro old
        have absent := clear₂.copies (site.host url) me path old
        rw [fetched answered] at absent
        cases absent
      intro fleet₃ clear₃
      exact ⟨clear₃.write me bytes fresh, ih _⟩

theorem restore (lostAfter : ℚ) : Sparing site me gone (Platform.Resource.restore lostAfter me) fleet := by
  have rounds : ∀ (entries : List (String × ResourceBeat)) (pulled : Nat) (fleet : Fleet),
      Sparing site me gone (restoreRounds me entries pulled) fleet := by
    intro entries
    induction entries with
    | nil => exact fun _ _ => trivial
    | cons entry rest ih =>
      intro pulled fleet
      obtain ⟨peer, hb⟩ := entry
      rw [restoreRounds]
      split
      · exact ih _ _
      · refine Serves.look quiet (fun _ => rfl) fun fleet₁ _ => ?_
        refine Serves.ofExcept fun held _ => ?_
        exact cut (pullRounds _ _ pulled) fun _ _ => ih _ _
  exact cut (looks (Looks.liveResources lostAfter)) fun live fleet' => rounds live 0 fleet'

theorem program (job : Job) : Sparing site me gone (job.program site me) fleet := by
  cases job with
  | retain => exact Serves.map retain
  | mirror => exact Serves.map (mirror _)
  | restore => exact Serves.map (restore _)

end Sparing

/-! ## Runs -/

/-- No event is recorded in one of these buckets. -/
def Spares (gone : String → Prop) : Event → Prop
  | .append _ log t _ => ∀ path, relativePath log t = .ok path → ¬ gone path
  | _ => True

structure Going (site : Site) (gone : String → Prop) (running : Running) : Prop where
  clear : Clear gone running.fleet
  jobs : ∀ server, Sparing site server gone (running.jobs server) running.fleet

variable {running : Running}

theorem clear_move {event : Event} (clear : Clear gone fleet) (spares : Spares gone event) :
    Clear gone (fleet.move site event) := by
  cases event with
  | append server log t line =>
    dsimp only [Fleet.move, Fleet.append]
    split
    · exact clear
    next path found => exact clear.write server _ (spares path found)
  | late which count =>
    dsimp only [Fleet.move]
    split
    next parcel found =>
      have waits : parcel ∈ fleet.sent := List.mem_of_getElem? found
      have delivered : Clear gone (fleet.deliver parcel count) := by
        by_cases old : gone parcel.path
        · have rejected : (isRefused (parcel.server ++ "/" ++ parcel.path) parcel.path || parcel.server = "") = true :=
            clear.sent parcel waits old
          have refused : ((fleet.disks parcel.host).servePut parcel.server parcel.path (parcel.bytes.take count)).2 =
              fleet.disks parcel.host := by rw [Disk.servePut, if_pos rejected]
          rw [Fleet.deliver, refused, setDisk_self]
          exact clear
        · exact clear.servePut _ _ _ old
      exact ⟨delivered.files, delivered.copies,
        fun parcel' waits' => clear.sent parcel' (List.mem_of_mem_eraseIdx waits')⟩
    · exact clear
  | beat server =>
    dsimp only [Fleet.move]
    split
    · exact clear.same rfl rfl
    · exact clear
  | wipe server => exact clear.setDisk (fun _ _ => rfl) fun _ _ _ => rfl
  | clock | lose | links | store | policy | begin_ | step => exact clear.same rfl rfl

theorem Going.moved (going : Going site gone running) (clear : Clear gone fleet') :
    Going site gone { running with fleet := fleet' } where
  clear := clear
  jobs server := (going.jobs server).moved_post (fun _ _ _ _ _ later => later)
    (fun result _ => by cases result <;> trivial) fun _ _ => clear

theorem Going.step {event : Event} (going : Going site gone running) (spares : Spares gone event) :
    Going site gone (step site running event) := by
  cases event with
  | begin_ server job =>
    refine ⟨going.clear, fun server' => ?_⟩
    by_cases same : server' = server
    · subst same
      simp only [Platform.Resource.step, Function.update_self]
      exact Sparing.program job
    · simp only [Platform.Resource.step, Function.update_of_ne same]
      exact going.jobs server'
  | step server =>
    cases program : running.jobs server with
    | ret | raise =>
      have still : Proc.advance (handler site server) (running.jobs server, running.fleet) =
          (running.jobs server, running.fleet) := by
        rw [program]
        rfl
      simp only [Platform.Resource.step, still, Function.update_eq_self]
      exact going
    | call stage request next =>
      have own := going.jobs server
      rw [program] at own
      obtain ⟨clear, later⟩ := own running.fleet going.clear
      have going' := going.moved clear
      refine ⟨?_, fun server' => ?_⟩
      · simp only [Platform.Resource.step, program, Proc.advance]
        exact clear
      · by_cases same : server' = server
        · subst same
          simp only [Platform.Resource.step, program, Proc.advance, Function.update_self]
          exact later
        · simp only [Platform.Resource.step, program, Proc.advance, Function.update_of_ne same]
          exact going'.jobs server'
  | append | late | clock | beat | lose | links | store | policy | wipe =>
    exact going.moved (clear_move going.clear spares)

/-- None of these buckets is on any resource, as the original or as a copy. -/
def Absent (gone : String → Prop) (fleet : Fleet) : Prop :=
  ∀ path, gone path →
    (∀ server, original fleet server path = none) ∧ ∀ holder server, copy fleet holder server path = none

/-- They are on no resource now, nor after any later run in which nobody records into them. -/
def GoneForGood (site : Site) (gone : String → Prop) (fleet : Fleet) : Prop :=
  ∀ later : List Event, (∀ event ∈ later, Spares gone event) → Absent gone (later.foldl (step site) (start fleet)).fleet

/-- Nobody holds a copy of one, and no PUT of one that would be taken is on its way. -/
def Uncopied (gone : String → Prop) (fleet : Fleet) : Prop :=
  ∀ path, gone path → (∀ holder server, copy fleet holder server path = none) ∧
    ∀ parcel ∈ fleet.sent, parcel.path = path → Refused parcel

theorem Clear.goneForGood (clear : Clear gone fleet) : GoneForGood site gone fleet := by
  intro later spares
  have first : Going site gone (start fleet) := ⟨clear, fun _ => trivial⟩
  have along : Along (step site) (fun _ event => Spares gone event) later (start fleet) :=
    along_of_forall spares _
  have last := along.keeps (fun running event spares going => going.step spares) first
  exact fun path old => ⟨fun server => last.clear.files server path old,
    fun holder server => last.clear.copies holder server path old⟩

/-- A PUT that would be taken brings a copy. -/
theorem GoneForGood.refused (good : GoneForGood site gone fleet) {parcel : Parcel} (waits : parcel ∈ fleet.sent)
    (old : gone parcel.path) : Refused parcel := by
  by_contra taken
  obtain ⟨which, found⟩ := List.getElem?_of_mem waits
  have absent := (good [.late which parcel.bytes.length] (by simp [Spares]) parcel.path old).2 parcel.host parcel.server
  have accepted : ¬ (isRefused (parcel.server ++ "/" ++ parcel.path) parcel.path || parcel.server = "") = true := taken
  have arrived : ((fleet.disks parcel.host).servePut parcel.server parcel.path parcel.bytes).2 =
      (fleet.disks parcel.host).keepCopy parcel.server parcel.path parcel.bytes := by
    rw [Disk.servePut, if_neg accepted]
  have there : copy ((start fleet).fleet.move site (.late which parcel.bytes.length)) parcel.host parcel.server
      parcel.path = some parcel.bytes := by
    have moved : (start fleet).fleet.move site (.late which parcel.bytes.length) =
        { fleet.deliver parcel parcel.bytes.length with sent := fleet.sent.eraseIdx which } := by
      rw [Fleet.move, show (start fleet).fleet.sent[which]? = some parcel from found]
      rfl
    rw [moved]
    show (((fleet.deliver parcel parcel.bytes.length).disks parcel.host).copiesOf parcel.server).read parcel.path = _
    rw [Fleet.deliver, List.take_length, arrived, disks_setDisk, if_pos rfl, copiesOf_keepCopy, if_pos ⟨rfl, rfl⟩]
  have lost : some parcel.bytes = none := there.symm.trans absent
  cases lost

/-- After any run, once every server with buckets of its own has retained at `now`, what has expired is gone for
good if and only if nobody held a copy of it and no PUT of it was on its way. -/
theorem copies_outlive_retention {fleet after : Fleet} {before : List Event} {servers : List String} {now : ℚ}
    (everywhere : ∀ server, server ∉ servers → ∀ path,
      original (before.foldl (step site) (start fleet)).fleet server path = none)
    (done : retainAll site now servers (before.foldl (step site) (start fleet)).fleet = .ok after) :
    let ends := (before.foldl (step site) (start fleet)).fleet
    GoneForGood site (Expired site ends.rows now) after ↔ Uncopied (Expired site ends.rows now) ends := by
  intro ends
  have retained : Retained site now servers ends after := retainAll_retained done
  constructor
  · intro good path old
    constructor
    · intro holder server
      have absent := (good [] nofun path old).2 holder server
      rw [← retained.copies]
      exact absent
    · rintro parcel waits rfl
      rw [← retained.sent] at waits
      exact good.refused waits old
  · intro uncopied
    refine Clear.goneForGood ⟨fun server path old => ?_, fun holder server path old => ?_, fun parcel waits old => ?_⟩
    · by_cases member : server ∈ servers
      · exact retained.expired server member path old
      · exact retained.gone server path (everywhere server member path)
    · rw [retained.copies]
      exact (uncopied path old).1 holder server
    · rw [retained.sent] at waits
      exact (uncopied parcel.path old).2 parcel waits rfl

/-! A bucket of which `b` holds a copy when both servers retain, three years later. -/

def copied : Fleet :=
  { nothingYet with
    disks := fun server =>
      if server = "a" then Disk.empty.write bucket [97, 10]
      else if server = "b" then Disk.empty.keepCopy "a" bucket [97, 10]
      else Disk.empty }

def years : ℚ := 100000000

def swept : Fleet := (retainAll twoServers years ["a", "b"] copied).toOption.getD nothingYet

theorem expired_bucket (rows : Rows) (year : daysOf rows "vms" "7" = .ok (.finite 365)) :
    Expired twoServers rows years bucket :=
  ⟨by decide, "vms", "7", 1, ⟨1970, 1, 1, 0, 0, 0⟩, .finite 365, by decide +kernel, year, by decide +kernel⟩

theorem ok_getD {result : Except Fault Fleet} (default : Fleet) (ok : result.toOption.isSome = true) :
    result = .ok (result.toOption.getD default) := by
  cases result with
  | error error => cases ok
  | ok value => rfl

theorem copies_outlive_retention_two : ¬ GoneForGood twoServers (Expired twoServers copied.rows years) swept := by
  intro good
  have everywhere : ∀ server, server ∉ ["a", "b"] → ∀ path, original copied server path = none := by
    intro server other path
    obtain ⟨notA, notB⟩ : server ≠ "a" ∧ server ≠ "b" := by simpa using other
    simp only [original, copied, if_neg notA, if_neg notB]
    rfl
  have done : retainAll twoServers years ["a", "b"] copied = .ok swept := ok_getD _ (by decide +kernel)
  have expired : Expired twoServers copied.rows years bucket := expired_bucket _ (by decide +kernel)
  have uncopied :=
    (@copies_outlive_retention twoServers copied swept [] ["a", "b"] years everywhere done).mp good bucket expired
  have held : copy copied "b" "a" bucket = some [97, 10] := by decide +kernel
  have lost := uncopied.1 "b" "a"
  cases lost.symm.trans held

/-- An event, and a mirror pass of `a`. -/
def mirrored : List Event :=
  [event 100 [97, 10], .clock "a" 1000, .clock "b" 1000, .beat "a", .beat "b", .begin_ "a" .mirror] ++
    List.replicate 9 (.step "a")

/-- After three years, `a` restores. -/
def restored : List Event :=
  [.clock "a" years, .clock "b" years, .beat "b", .begin_ "a" .restore] ++ List.replicate 6 (.step "a")

def beforeRetention : Fleet := (mirrored.foldl (step twoServers) (start nothingYet)).fleet

def afterRetention : Fleet := (retainAll twoServers years ["a", "b"] beforeRetention).toOption.getD nothingYet

/-- Both servers have retained: the original is gone, the copy is not, and a restore brings the original back. -/
theorem expired_copy_restored :
    retainAll twoServers years ["a", "b"] beforeRetention = .ok afterRetention ∧
      Expired twoServers beforeRetention.rows years bucket ∧
      original afterRetention "a" bucket = none ∧ copy afterRetention "b" "a" bucket = some [97, 10] ∧
      original (restored.foldl (step twoServers) (start afterRetention)).fleet "a" bucket = some [97, 10] := by
  have expired : Expired twoServers beforeRetention.rows years bucket := expired_bucket _ (by decide +kernel)
  refine ⟨ok_getD _ (by decide +kernel), expired, ?_, ?_, ?_⟩
  · decide +kernel
  · decide +kernel
  · decide +kernel

end EdgeVms.Verified.CopyRetention
