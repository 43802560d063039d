import Mathlib.Data.List.Infix

/-! # `re.sub`

A pattern is scanned over a text from the left: where it matches, what stands for the
match is written and the scan goes on after it; elsewhere one character is copied.
The pattern is given by what it finds at the start of a text.
-/

namespace EdgeVms.Python

/-- How many characters are taken at the start of a text, and what is written for them. -/
structure Pattern (α : Type) where
  find : List α → Option (Nat × List α)
  takes : ∀ {text n image}, find text = some (n, image) → 0 < n ∧ n ≤ text.length

namespace Pattern

variable {α : Type} (p : Pattern α)

/-- The scan, with the characters that the last match still holds. -/
def scan : Nat → List α → List α
  | _, [] => []
  | held + 1, _ :: rest => scan held rest
  | 0, c :: rest =>
    match p.find (c :: rest) with
    | none => c :: scan 0 rest
    | some (n, image) => image ++ scan (n - 1) rest

def sub (text : List α) : List α := p.scan 0 text

theorem scan_eq (held : Nat) (text : List α) : p.scan held text = p.sub (text.drop held) := by
  induction text generalizing held with
  | nil => cases held <;> simp [scan, sub]
  | cons c rest ih =>
    cases held with
    | zero => rfl
    | succ held => exact ih held

@[simp] theorem sub_nil : p.sub [] = [] := rfl

variable {p}

theorem sub_copy {c : α} {rest : List α} (absent : p.find (c :: rest) = none) :
    p.sub (c :: rest) = c :: p.sub rest := by
  simp [sub, scan, absent]

theorem sub_replace {text : List α} {n : Nat} {image : List α} (found : p.find text = some (n, image)) :
    p.sub text = image ++ p.sub (text.drop n) := by
  have taken := p.takes found
  cases text with
  | nil => simp at taken; omega
  | cons c rest =>
    obtain ⟨m, rfl⟩ : ∃ m, n = m + 1 := ⟨n - 1, by omega⟩
    have held : p.scan m rest = p.sub ((c :: rest).drop (m + 1)) := p.scan_eq m rest
    rw [← held]
    simp only [sub, scan, found, Nat.add_sub_cancel]

/-- A text is read as the scan reads it: a character that is copied, or a match. -/
theorem induct {motive : List α → Prop} (nil : motive [])
    (copy : ∀ c rest, p.find (c :: rest) = none → motive rest → motive (c :: rest))
    (replace : ∀ text n image, p.find text = some (n, image) → motive (text.drop n) → motive text)
    (text : List α) : motive text := by
  induction length : text.length using Nat.strong_induction_on generalizing text with
  | _ size ih =>
    cases found : p.find text with
    | some m =>
      have taken := p.takes found
      exact replace text m.1 m.2 found (ih (text.drop m.1).length (by simp; omega) _ rfl)
    | none =>
      cases text with
      | nil => exact nil
      | cons c rest => exact copy c rest found (ih rest.length (by simp at length; omega) rest rfl)

/-- The scan of two texts, one after the other, when no match that begins in the first needs the second. -/
theorem sub_append {front back : List α}
    (apart : ∀ start, start ≠ [] → start <:+ front → p.find (start ++ back) = p.find start) :
    p.sub (front ++ back) = p.sub front ++ p.sub back := by
  induction front using p.induct with
  | nil => simp
  | copy c rest absent ih =>
    have later := ih fun start some_ within => apart start some_ (within.trans (List.suffix_cons c rest))
    have still : p.find (c :: (rest ++ back)) = none := by
      rw [← List.cons_append, apart (c :: rest) (by simp) List.suffix_rfl, absent]
    rw [List.cons_append, sub_copy still, sub_copy absent, later, List.cons_append]
  | replace front n image found ih =>
    have taken := p.takes found
    have some_ : front ≠ [] := by rintro rfl; simp at taken; omega
    have later := ih fun start some_ within => apart start some_ (within.trans (List.drop_suffix n front))
    have still : p.find (front ++ back) = some (n, image) := by
      rw [apart front some_ List.suffix_rfl, found]
    rw [sub_replace still, sub_replace found, List.drop_append_of_le_length taken.2, later, List.append_assoc]

/-- Where every match is written as it stands, nothing changes. -/
theorem sub_eq_self {text : List α}
    (same : ∀ start n image, start <:+ text → p.find start = some (n, image) → image = start.take n) :
    p.sub text = text := by
  induction text using p.induct with
  | nil => rfl
  | copy c rest absent ih =>
    rw [sub_copy absent, ih fun start n image within => same start n image (within.trans (List.suffix_cons c rest))]
  | replace text n image found ih =>
    rw [sub_replace found, same text n image List.suffix_rfl found,
      ih fun start n' image' within => same start n' image' (within.trans (List.drop_suffix n text)),
      List.take_append_drop]

end Pattern

end EdgeVms.Python
