import ColorCensus.Color.Canonical
import ColorCensus.Color.Candidate
import ColorCensus.Css.Stylesheet

namespace ColorCensus

structure Tally where
  counts : List (Text × Nat)
  deriving DecidableEq, Repr

namespace Tally

def empty : Tally := ⟨[]⟩

instance : Inhabited Tally := ⟨empty⟩

def bump (color : Text) : List (Text × Nat) → List (Text × Nat)
  | [] => [(color, 1)]
  | (c, n) :: counts => if c = color then (c, n + 1) :: counts else (c, n) :: bump color counts

def add (t : Tally) (color : Text) : Tally := ⟨bump color t.counts⟩

def get (t : Tally) (color : Text) : Nat := (t.counts.lookup color).getD 0

def contains (t : Tally) (color : Text) : Bool := t.counts.any (·.1 == color)

def size (t : Tally) : Nat := t.counts.length

def total (t : Tally) : Nat := t.counts.foldr (fun e n => e.2 + n) 0

theorem get_empty (color : Text) : empty.get color = 0 := rfl

theorem total_empty : empty.total = 0 := rfl

theorem total_add (t : Tally) (color : Text) : (t.add color).total = t.total + 1 := by
  obtain ⟨counts⟩ := t
  simp only [total, add]
  induction counts with
  | nil => rfl
  | cons e counts ih =>
    obtain ⟨c, n⟩ := e
    by_cases hc : c = color
    · simp only [bump, hc, if_true, List.foldr_cons]
      omega
    · simp only [bump, hc, if_false, List.foldr_cons, ih]
      omega

theorem lookup_bump (color c : Text) (counts : List (Text × Nat)) :
    ((bump color counts).lookup c).getD 0 =
      (counts.lookup c).getD 0 + if c = color then 1 else 0 := by
  induction counts with
  | nil =>
    by_cases h : c = color
    · simp [bump, h]
    · simp [bump, h, List.lookup_cons, beq_eq_false_iff_ne.mpr h]
  | cons e counts ih =>
    obtain ⟨d, n⟩ := e
    by_cases hd : d = color
    · by_cases hc : c = d
      · simp [bump, hd, hc]
      · have hb : (c == d) = false := beq_eq_false_iff_ne.mpr hc
        simp [bump, hd, List.lookup_cons, hd ▸ hb, hd ▸ hc]
    · by_cases hc : c = d
      · simp [bump, hc, hd]
      · simp [bump, hd, List.lookup_cons, beq_eq_false_iff_ne.mpr hc, ih]

theorem get_add (t : Tally) (color c : Text) :
    (t.add color).get c = t.get c + if c = color then 1 else 0 := lookup_bump color c t.counts

def addToken (t : Tally) (token : Text) : Except Color.Fault (Tally × Option Text) :=
  (Color.normalize token).map fun color =>
    match color with
    | some c => (t.add c, some c)
    | none => (t, none)

def addAll (t : Tally) (colors : List Text) : Tally := colors.foldl add t

theorem addAll_append (t : Tally) (xs ys : List Text) :
    t.addAll (xs ++ ys) = (t.addAll xs).addAll ys := List.foldl_append ..

def colorsOf (value : Text) : List Text := (Candidate.tokens value).filterMap Color.canonical?

def addValue (t : Tally) (value : Text) : Tally := t.addAll (colorsOf value)

def addValues (t : Tally) (values : List Text) : Tally := values.foldl addValue t

theorem addValues_eq_addAll (t : Tally) (values : List Text) :
    t.addValues values = t.addAll (values.flatMap colorsOf) := by
  induction values generalizing t with
  | nil => rfl
  | cons v values ih =>
    rw [List.flatMap_cons, addAll_append, ← ih]
    rfl

def addExtraction (t : Tally) (x : Css.Extraction) : Tally :=
  t.addValues (x.declarations.map fun d => d.value)

theorem addExtraction_empty (t : Tally) : t.addExtraction .empty = t := rfl

def addStylesheet (t : Tally) (properties : List Text) (s : Text) : Tally × Option Css.SyntaxFault :=
  match Css.parse s with
  | .error f => (t, some f)
  | .ok rules => (t.addExtraction (Css.extract properties rules), (Css.extract properties rules).fault)

theorem addStylesheet_of_error {t : Tally} {properties : List Text} {s : Text} {f : Css.SyntaxFault}
    (h : Css.parse s = .error f) : t.addStylesheet properties s = (t, some f) := by
  rw [addStylesheet, h]

end Tally

end ColorCensus
