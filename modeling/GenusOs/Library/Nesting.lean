import Mathlib

/-!
# Nested marks

A text with marks that open and close a stretch of it. A stretch that is cut out is nested again
once what is open in front of it is opened anew and what is open at its end is closed.

* `Nested.reopened`: the stretch is nested.
* `under_reopened`: what stands in it stands under the same marks as before.
-/

namespace GenusOs

/-- A mark `t` that opens, a name that closes, or an item of the text. -/
inductive Mark (τ ν ι : Type*)
  | opening (t : τ)
  | closing (n : ν)
  | item (x : ι)

namespace Mark

variable {τ ν ι : Type*}

/-- What is open behind the marks, the outermost first. -/
def after (opened : List τ) : List (Mark τ ν ι) → List τ
  | [] => opened
  | opening t :: ms => after (opened ++ [t]) ms
  | closing _ :: ms => after opened.dropLast ms
  | item _ :: ms => after opened ms

/-- The items, each with what is open around it. -/
def under (opened : List τ) : List (Mark τ ν ι) → List (List τ × ι)
  | [] => []
  | opening t :: ms => under (opened ++ [t]) ms
  | closing _ :: ms => under opened.dropLast ms
  | item x :: ms => (opened, x) :: under opened ms

/-- Every mark that closes has the name of the innermost one that is open. -/
def Closes (name : τ → ν) (opened : List τ) : List (Mark τ ν ι) → Prop
  | [] => True
  | opening t :: ms => Closes name (opened ++ [t]) ms
  | closing n :: ms => (∃ t, opened.getLast? = some t ∧ name t = n) ∧ Closes name opened.dropLast ms
  | item _ :: ms => Closes name opened ms

/-- The marks are nested, and nothing stays open. -/
structure Nested (name : τ → ν) (ms : List (Mark τ ν ι)) : Prop where
  closes : Closes name [] ms
  ends : after [] ms = []

variable {name : τ → ν} {opened : List τ} {ms ns : List (Mark τ ν ι)} {ts : List τ}

/-! ## Joining -/

theorem after_append (opened : List τ) (ms ns : List (Mark τ ν ι)) :
    after opened (ms ++ ns) = after (after opened ms) ns := by
  induction ms generalizing opened with
  | nil => rfl
  | cons m ms ih =>
    cases m with
    | _ => exact ih _

theorem under_append (opened : List τ) (ms ns : List (Mark τ ν ι)) :
    under opened (ms ++ ns) = under opened ms ++ under (after opened ms) ns := by
  induction ms generalizing opened with
  | nil => rfl
  | cons m ms ih =>
    cases m with
    | opening t => exact ih _
    | closing n => exact ih _
    | item x => exact congrArg _ (ih opened)

theorem closes_append :
    Closes name opened (ms ++ ns) ↔ Closes name opened ms ∧ Closes name (after opened ms) ns := by
  induction ms generalizing opened with
  | nil => exact ⟨fun h => ⟨trivial, h⟩, And.right⟩
  | cons m ms ih =>
    cases m with
    | opening t => exact ih
    | closing n => exact (and_congr_right fun _ => ih).trans and_assoc.symm
    | item x => exact ih

theorem Nested.nil : Nested (ι := ι) name [] := ⟨trivial, rfl⟩

theorem Nested.item (x : ι) : Nested name [Mark.item x] := ⟨trivial, rfl⟩

theorem Nested.append (h : Nested name ms) (k : Nested name ns) : Nested name (ms ++ ns) := by
  constructor
  · rw [closes_append, h.ends]
    exact ⟨h.closes, k.closes⟩
  · rw [after_append, h.ends, k.ends]

/-- Marks that close do so inside others, too. -/
theorem closes_inside (outer : List τ) (h : Closes name opened ms) :
    Closes name (outer ++ opened) ms ∧ after (outer ++ opened) ms = outer ++ after opened ms := by
  induction ms generalizing opened with
  | nil => exact ⟨trivial, rfl⟩
  | cons m ms ih =>
    cases m with
    | opening t =>
      have hinner : Closes name (outer ++ (opened ++ [t])) ms ∧
          after (outer ++ (opened ++ [t])) ms = outer ++ after (opened ++ [t]) ms := ih h
      rwa [← List.append_assoc] at hinner
    | closing n =>
      obtain ⟨⟨t, hlast, hname⟩, hrest⟩ := h
      have hne : opened ≠ [] := fun hnil => by
        rw [hnil] at hlast
        cases hlast
      have hinner := ih hrest
      rw [← List.dropLast_append_of_ne_nil hne] at hinner
      refine ⟨⟨⟨t, ?_, hname⟩, hinner.1⟩, hinner.2⟩
      rw [List.getLast?_append_of_ne_nil _ hne, hlast]
    | item x => exact ih h

/-- What is nested is nested between a mark and the one that closes it. -/
theorem Nested.wrap (t : τ) (h : Nested name ms) :
    Nested name (Mark.opening t :: (ms ++ [Mark.closing (name t)])) := by
  obtain ⟨hcloses, hafter⟩ := closes_inside [t] h.closes
  rw [h.ends] at hafter
  constructor
  · show Closes name [t] (ms ++ [Mark.closing (name t)])
    rw [closes_append]
    exact ⟨hcloses, hafter ▸ ⟨⟨t, rfl, rfl⟩, trivial⟩⟩
  · show after [t] (ms ++ [Mark.closing (name t)]) = []
    rw [after_append]
    exact hafter ▸ rfl

/-! ## Opening anew, and closing -/

theorem after_openings (opened ts : List τ) :
    after opened (ts.map (opening (ν := ν) (ι := ι))) = opened ++ ts := by
  induction ts generalizing opened with
  | nil => exact (List.append_nil opened).symm
  | cons t ts ih => exact (ih _).trans (List.append_assoc ..)

theorem under_openings (opened ts : List τ) :
    under opened (ts.map (opening (ν := ν) (ι := ι))) = [] := by
  induction ts generalizing opened with
  | nil => rfl
  | cons t ts ih => exact ih _

theorem closes_openings (opened ts : List τ) :
    Closes name opened (ts.map (opening (ι := ι))) := by
  induction ts generalizing opened with
  | nil => trivial
  | cons t ts ih => exact ih _

/-- The marks that close what is open. -/
def closings (name : τ → ν) (opened : List τ) : List (Mark τ ν ι) :=
  opened.reverse.map fun t => closing (name t)

theorem closings_concat (name : τ → ν) (opened : List τ) (t : τ) :
    closings (ι := ι) name (opened ++ [t]) = closing (name t) :: closings name opened := by
  rw [closings, List.reverse_concat, List.map_cons]
  rfl

theorem after_closings (name : τ → ν) (opened : List τ) :
    after opened (closings (ι := ι) name opened) = [] := by
  induction opened using List.reverseRecOn with
  | nil => rfl
  | append_singleton opened t ih =>
    rw [closings_concat, after, List.dropLast_concat, ih]

theorem under_closings (name : τ → ν) (opened : List τ) :
    under opened (closings (ι := ι) name opened) = [] := by
  induction opened using List.reverseRecOn with
  | nil => rfl
  | append_singleton opened t ih =>
    rw [closings_concat, under, List.dropLast_concat, ih]

theorem closes_closings (name : τ → ν) (opened : List τ) :
    Closes name opened (closings (ι := ι) name opened) := by
  induction opened using List.reverseRecOn with
  | nil => trivial
  | append_singleton opened t ih =>
    rw [closings_concat]
    refine ⟨⟨t, List.getLast?_concat .., rfl⟩, ?_⟩
    rwa [List.dropLast_concat]

/-! ## A stretch that is cut out -/

/-- The stretch `ms`, in front of which `opened` is open, with its marks opened anew and closed. -/
def reopened (name : τ → ν) (opened : List τ) (ms : List (Mark τ ν ι)) : List (Mark τ ν ι) :=
  opened.map opening ++ ms ++ closings name (after opened ms)

theorem Nested.reopened (h : Closes name opened ms) : Nested name (reopened name opened ms) := by
  have hopen : after [] (opened.map (opening (ν := ν) (ι := ι))) = opened :=
    after_openings [] opened
  constructor
  · rw [Mark.reopened, closes_append, closes_append, after_append, hopen]
    exact ⟨⟨closes_openings [] opened, h⟩, closes_closings name _⟩
  · rw [Mark.reopened, after_append, after_append, hopen, after_closings]

theorem under_reopened (name : τ → ν) (opened : List τ) (ms : List (Mark τ ν ι)) :
    under [] (Mark.reopened name opened ms) = under opened ms := by
  have hopen : after [] (opened.map (opening (ν := ν) (ι := ι))) = opened :=
    after_openings [] opened
  rw [Mark.reopened, under_append, under_append, after_append, hopen, under_openings,
    under_closings, List.nil_append, List.append_nil]

end Mark

end GenusOs
