import EdgeVms.Platform.Fleet
import EdgeVms.Process.Pool
import Mathlib.Data.List.Dedup

/-! # What the passes of a resource see and leave

The listings of a disk, by the files that are on it, and the rules for a pass whose requests
are served while the other servers go on.
-/

namespace EdgeVms.Verified.Passes

open Process Python
open Platform (Tree Bytes Bucket EventLog ResourceBeat parseBucket matchesEpoch eventsStamp sorted)
open Platform.Resource

variable {site : Site} {me : String}

/-! ## Listings -/

/-- The path of a bucket has four components. -/
theorem parseBucket_inv {path subsystem unit : String} {epoch : Int} {start : DateTime}
    (parsed : parseBucket path = .ok (some (subsystem, unit, epoch, start))) :
    ∃ dir file, split '/' path = [subsystem, unit, dir, file] := by
  unfold parseBucket at parsed
  split at parsed
  next subsystem' unit' dir file parts =>
    split at parsed
    · cases parsed
    · split at parsed
      · cases parsed
      · obtain ⟨start', -, after⟩ := bind_eq_ok.mp parsed
        obtain ⟨epoch', -, ends⟩ := bind_eq_ok.mp after
        cases ends
        exact ⟨dir, file, parts⟩
  next => cases parsed

theorem endOf_eq_some {path : String} {end_ : ℚ} (ends : site.endOf path = some end_) :
    ∃ subsystem unit epoch start, parseBucket path = .ok (some (subsystem, unit, epoch, start)) ∧
      end_ = start.timestamp + site.bucketSeconds := by
  unfold Site.endOf at ends
  split at ends
  next subsystem unit epoch start parsed => exact ⟨subsystem, unit, epoch, start, parsed, (Option.some.inj ends).symm⟩
  next => cases ends

theorem bucketAt_some {count : Bytes → Except Error Nat} {tree : Tree} {path : String} {b : Bucket}
    (made : site.bucketAt count tree path = .ok (some b)) : b.path = path ∧ site.endOf path = some b.end_ := by
  obtain ⟨found, parsed, after⟩ := bind_eq_ok.mp made
  cases found with
  | none => cases after
  | some found =>
    obtain ⟨subsystem, unit, epoch, start⟩ := found
    obtain ⟨events, -, ends⟩ := bind_eq_ok.mp after
    cases ends
    exact ⟨rfl, by rw [Site.endOf, parsed]⟩

theorem bucketAt_none {count : Bytes → Except Error Nat} {tree : Tree} {path : String}
    (made : site.bucketAt count tree path = .ok none) : site.endOf path = none := by
  obtain ⟨found, parsed, after⟩ := bind_eq_ok.mp made
  cases found with
  | none => rw [Site.endOf, parsed]
  | some found =>
    obtain ⟨subsystem, unit, epoch, start⟩ := found
    obtain ⟨events, -, ends⟩ := bind_eq_ok.mp after
    cases ends

/-- A listing is made of the buckets among the files. -/
theorem bucketsAmong_inv {count : Bytes → Except Error Nat} {tree : Tree} {paths : List String} {bs : List Bucket}
    (made : site.bucketsAmong count tree paths = .ok bs) :
    (∀ b ∈ bs, b.path ∈ paths ∧ site.endOf b.path = some b.end_) ∧
      ∀ path ∈ paths, (site.endOf path).isSome → ∃ b ∈ bs, b.path = path := by
  obtain ⟨found, each, ends⟩ := bind_eq_ok.mp made
  cases ends
  constructor
  · intro b member
    rw [sortBuckets, List.mem_insertionSort, List.mem_filterMap] at member
    obtain ⟨_, inside, rfl⟩ := member
    obtain ⟨path, given, made'⟩ := of_mem_mapM_ok each inside
    obtain ⟨same, ends⟩ := bucketAt_some made'
    rw [same]
    exact ⟨given, ends⟩
  · intro path given bucket
    obtain ⟨result, inside, made'⟩ := mem_of_mapM_ok each given
    cases result with
    | none =>
      rw [bucketAt_none made'] at bucket
      cases bucket
    | some b =>
      refine ⟨b, ?_, (bucketAt_some made').1⟩
      rw [sortBuckets, List.mem_insertionSort, List.mem_filterMap]
      exact ⟨_, inside, rfl⟩

theorem isUnder_of_split {path subsystem unit : String} {rest : List String} (more : rest ≠ [])
    (parts : split '/' path = subsystem :: unit :: rest) : isUnder (subsystem ++ "/" ++ unit) path = true := by
  have joined := join_split '/' path
  rw [parts] at joined
  rw [isUnder, List.isPrefixOf_iff_prefix, ← joined, toList_join_cons (by simp), toList_join_cons more]
  exact ⟨(join '/' rest).toList, by simp⟩

/-- Every bucket of the tree is in the listing of a unit. -/
theorem listed {disk : Disk} {path subsystem unit : String} {epoch : Int} {start : DateTime}
    (there : (disk.files.read path).isSome) (parsed : parseBucket path = .ok (some (subsystem, unit, epoch, start)))
    (plain : path.toList.head? ≠ some '.') :
    ∃ units, (subsystem, units) ∈ disk.subsystemsUnder ∧ unit ∈ units ∧
      isUnder (subsystem ++ "/" ++ unit) path = true := by
  obtain ⟨dir, file, parts⟩ := parseBucket_inv parsed
  have place : unitOf path = some (subsystem, unit) := by rw [unitOf, parts]
  have visible : subsystem.toList.head? ≠ some '.' := by
    have joined := join_split '/' path
    rw [parts] at joined
    have chars : path.toList = subsystem.toList ++ '/' :: (join '/' [unit, dir, file]).toList := by
      rw [← joined, toList_join_cons (by simp)]
    rw [chars] at plain
    cases letters : subsystem.toList with
    | nil => simp
    | cons c rest =>
      rw [letters] at plain
      exact plain
  have inside : (subsystem, unit) ∈ disk.units := by
    refine List.mem_filter.mpr ⟨List.mem_append_right _ ?_, by simpa using visible⟩
    exact List.mem_filterMap.mpr ⟨path, (disk.files.mem_keys).mpr (Option.isSome_iff_ne_none.mp there), place⟩
  have first : subsystem ∈ sorted (disk.units.map Prod.fst).dedup :=
    (List.mem_insertionSort _).mpr (List.mem_dedup.mpr (List.mem_map_of_mem inside))
  have second : unit ∈ sorted ((disk.units.filter fun entry => entry.1 = subsystem).map Prod.snd).dedup := by
    have here : (subsystem, unit) ∈ disk.units.filter fun entry => entry.1 = subsystem :=
      List.mem_filter.mpr ⟨inside, by simp⟩
    exact (List.mem_insertionSort _).mpr (List.mem_dedup.mpr (List.mem_map.mpr ⟨_, here, rfl⟩))
  exact ⟨_, List.mem_map_of_mem first, second, isUnder_of_split (by simp) parts⟩

/-! ## The files of the fleet -/

/-- A file of a server's own tree. -/
def original (fleet : Fleet) (server path : String) : Option Bytes := (fleet.disks server).files.read path

/-- A copy that `holder` keeps of a file of `server`. -/
def copy (fleet : Fleet) (holder server path : String) : Option Bytes :=
  ((fleet.disks holder).copiesOf server).read path

theorem mirrored_kept {fleet : Fleet} {holder server : String} {held : List Bucket}
    (listed : site.mirroredBuckets (fleet.disks holder) server = .ok held) {b : Bucket} (inside : b ∈ held) :
    (copy fleet holder server b.path).isSome :=
  Option.isSome_iff_ne_none.mpr ((Versioned.mem_keys _).mp ((bucketsAmong_inv listed).1 b inside).1)

theorem fetched {fleet : Fleet} {url server path : String} {bytes : Bytes}
    (answered : (handler site me (.fetch url server path) fleet).1 = .ok bytes) :
    copy fleet (site.host url) server path = some bytes := by
  dsimp only [handler, Disk.serveEvents] at answered
  split at answered
  · split at answered
    · cases answered
    · split at answered
      next bytes' stored =>
        cases answered
        exact stored
      next => cases answered
  · cases answered

theorem copiesOf_keepCopy (disk : Disk) (server path : String) (bytes : Bytes) (server' path' : String) :
    ((disk.keepCopy server path bytes).copiesOf server').read path' =
      if server' = server ∧ path' = path then some bytes else (disk.copiesOf server').read path' := by
  by_cases same : server' = server
  · subst same
    have set : (disk.keepCopy server' path bytes).copiesOf server' = (disk.copiesOf server').write path bytes := by
      simp only [Disk.keepCopy, Disk.copiesOf, Dict.get?_set_self, Option.getD_some]
    by_cases same' : path' = path
    · rw [set, same', Versioned.read_write_self, if_pos ⟨rfl, rfl⟩]
    · rw [set, Versioned.read_write_other _ _ same', if_neg fun both => same' both.2]
  · rw [if_neg fun both => same both.1]
    simp only [Disk.keepCopy, Disk.copiesOf, Dict.get?_set_other _ _ same]

theorem disks_setDisk (fleet : Fleet) (server : String) (disk : Disk) (server' : String) :
    (fleet.setDisk server disk).disks server' = if server' = server then disk else fleet.disks server' := by
  simp only [Fleet.setDisk, Function.update_apply]

/-- What arrives as a copy. -/
theorem servePut_ok {disk : Disk} {server path : String} {bytes : Bytes}
    (taken : (disk.servePut server path bytes).1 = .ok ()) :
    (disk.servePut server path bytes).2 = disk.keepCopy server path bytes := by
  unfold Disk.servePut at taken ⊢
  split at taken
  · cases taken
  next accepted => rw [if_neg accepted]

theorem servePut_error {disk : Disk} {server path : String} {bytes : Bytes} {error : Fault}
    (refused : (disk.servePut server path bytes).1 = .error error) : (disk.servePut server path bytes).2 = disk := by
  unfold Disk.servePut at refused ⊢
  split at refused
  next rejected => rw [if_pos rejected]
  · cases refused

theorem setDisk_self (fleet : Fleet) (server : String) : fleet.setDisk server (fleet.disks server) = fleet := by
  rw [Fleet.setDisk, Function.update_eq_self]

theorem servePut_cases (disk : Disk) (server path : String) (bytes : Bytes) :
    (disk.servePut server path bytes).2 = disk ∨
      (disk.servePut server path bytes).2 = disk.keepCopy server path bytes := by
  unfold Disk.servePut
  split
  · exact .inl rfl
  · exact .inr rfl

/-! ## Rules for passes -/

variable {α β : Type} {rely : Stage → Fleet → Fleet → Prop} {guarantee : Fleet → Fleet → Prop}
  {post : α → Fleet → Prop} {fleet : Fleet}

/-- The postcondition of a pass that raises nothing. -/
def Ended (post : α → Fleet → Prop) : Except Fault α → Fleet → Prop
  | .ok value, fleet => post value fleet
  | .error _, _ => True

/-- The pass of `me` is safe, and ends in `post` unless it raises. -/
abbrev Serves (site : Site) (me : String) (rely : Stage → Fleet → Fleet → Prop) (guarantee : Fleet → Fleet → Prop)
    (post : α → Fleet → Prop) (p : Program α) (fleet : Fleet) : Prop :=
  Safe (handler site me) rely guarantee (Ended post) p fleet

namespace Serves

theorem mono {weak : α → Fleet → Prop} {p : Program α} (implies : ∀ value fleet, post value fleet → weak value fleet)
    (serves : Serves site me rely guarantee post p fleet) : Serves site me rely guarantee weak p fleet := by
  refine Safe.mono (fun result fleet' ends => ?_) serves
  cases result with
  | error error => trivial
  | ok value => exact implies value fleet' ends

/-- `bind`, with the fact that the two parts share. -/
theorem cut (middle : α → Fleet → Prop) {last : β → Fleet → Prop} {p : Program α} {f : α → Program β}
    (first : Serves site me rely guarantee middle p fleet)
    (later : ∀ value fleet', middle value fleet' → Serves site me rely guarantee last (f value) fleet') :
    Serves site me rely guarantee last (p >>= f) fleet := by
  refine Safe.bind (Safe.mono (fun result fleet' ends => ?_) first)
  cases result with
  | error error => trivial
  | ok value => exact later value fleet' ends

theorem map {f : α → β} {last : β → Fleet → Prop} {p : Program α}
    (serves : Serves site me rely guarantee (fun value => last (f value)) p fleet) :
    Serves site me rely guarantee last (f <$> p) fleet := by
  rw [map_eq_pure_bind]
  exact cut _ serves fun _ _ holds => holds

theorem ofExcept {f : α → Program β} {last : β → Fleet → Prop} {result : Except Fault α}
    (later : ∀ value, result = .ok value → Serves site me rely guarantee last (f value) fleet) :
    Serves site me rely guarantee last (Proc.ofExcept result >>= f) fleet := by
  cases result with
  | error error => trivial
  | ok value => exact later value rfl

theorem value {f : α → Program β} {last : β → Fleet → Prop} {result : Except Error α}
    (later : ∀ value, result = .ok value → Serves site me rely guarantee last (f value) fleet) :
    Serves site me rely guarantee last (Platform.Resource.value result >>= f) fleet := by
  cases result with
  | error error => trivial
  | ok value => exact later value rfl

section Requests

variable (quiet : ∀ fleet fleet', rely .idle fleet fleet' → guarantee fleet' fleet')
include quiet

/-- A request that changes nothing. -/
theorem look {request : Request} {f : request.Answer → Program β} {last : β → Fleet → Prop}
    (looks : ∀ fleet, (handler site me request fleet).2 = fleet)
    (next : ∀ fleet', rely .idle fleet fleet' →
      Serves site me rely guarantee last (f (handler site me request fleet').1) fleet') :
    Serves site me rely guarantee last (ask request >>= f) fleet := by
  intro fleet' moved
  refine ⟨?_, ?_⟩
  · rw [looks]
    exact quiet fleet fleet' moved
  · rw [looks]
    exact next fleet' moved

theorem row {key : Platform.Key} {f : Option Platform.Items → Program β} {last : β → Fleet → Prop}
    (next : ∀ fleet', rely .idle fleet fleet' → Serves site me rely guarantee last (f (fleet'.rows.read key)) fleet') :
    Serves site me rely guarantee last (Platform.Resource.row key >>= f) fleet := by
  show Serves site me rely guarantee last (ask (.row key) >>= fun answer => Proc.ofExcept answer >>= f) fleet
  refine look quiet (fun _ => rfl) fun fleet' moved => ?_
  refine ofExcept fun items answered => ?_
  dsimp only [handler] at answered
  split at answered
  · cases answered
    exact next fleet' moved
  · cases answered

end Requests

end Serves

/-! ## Undisturbed -/

/-- The pass of `me`, while nothing else happens. -/
abbrev Alone (site : Site) (me : String) (post : α → Fleet → Prop) (p : Program α) (fleet : Fleet) : Prop :=
  Serves site me (fun _ fleet fleet' => fleet' = fleet) (fun _ _ => True) post p fleet

theorem Alone.run {p : Program α} (alone : Alone site me post p fleet) :
    Ended post (p.run (handler site me) fleet).1 (p.run (handler site me) fleet).2 := by
  refine Safe.run (fun _ => True) ?_ ?_ alone trivial
  · exact fun _ _ _ => rfl
  · exact fun _ _ _ _ => trivial

theorem unasked (fleet fleet' : Fleet) (_ : fleet' = fleet) : True := trivial

/-! ## Two servers -/

def twoServers : Site where
  url server := server
  host address := address
  reaches _ := rfl
  bucketSeconds := 600
  lostAfter := 45
  isJson _ := true

def nothingYet : Fleet where
  disks _ := Disk.empty
  clock _ := 0
  beats := []
  rows := (Versioned.empty 0).write ["platform", "mirror"] [("enabled", "true"), ("copies", "1")]
  store := true
  up _ := true
  sent := []

def bucket : String := "vms/7/e1/19700101T000000Z.events.jsonl"

/-- An event of camera 7, at its time. -/
def event (t : ℚ) (line : Bytes) : Event := .append "a" ⟨"", "vms", "7", 1, 600⟩ t line

end EdgeVms.Verified.Passes
