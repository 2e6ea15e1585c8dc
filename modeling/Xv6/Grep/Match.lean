import Mathlib.Computability.Language
import Mathlib.Data.UInt

/-!
# The matcher of `grep`

`match`, `matchhere` and `matchstar` of `user/grep.c`.  A `char *` into a NUL-terminated string is
the list of the bytes from there up to the NUL, so that `re + 1` is the tail, and a read of `'\0'`
is the end of the list.

What a pattern means is defined apart from the code: it is read from left to right (`read`) as a
sequence of items, each of which denotes a language, and the pattern denotes their product.
`matchRe_iff` says that `match` decides whether the text has a substring in that language.
-/

namespace Xv6.Grep

open scoped Computability

/-- A character of the pattern or of the text. -/
abbrev chr (c : Char) : UInt8 := c.toUInt8

/-! ## The code -/

/-- `re[0]=='.' || re[0]==*text`, for a character of the text. -/
def accepts (c t : UInt8) : Bool := c = chr '.' ∨ c = t

/-- `c*re` at the beginning of the text, where `here` is `matchhere` of `re`. -/
def matchstar (c : UInt8) (here : List UInt8 → Bool) : List UInt8 → Bool
  | [] => here []
  | t :: text =>
    if here (t :: text) then true
    else if accepts c t then matchstar c here text
    else false

/-- The last two cases of `matchhere`: one character, and `here` for the rest of the pattern. -/
def matchchar (c : UInt8) (here : List UInt8 → Bool) : List UInt8 → Bool
  | [] => false
  | t :: text => if accepts c t then here text else false

/-- `re` at the beginning of the text. -/
def matchhere : List UInt8 → List UInt8 → Bool
  | [], _ => true
  | [c], text =>
    -- `re[1]` is NUL
    if c = chr '$' then text = [] else matchchar c (matchhere []) text
  | c :: d :: re, text =>
    if d = chr '*' then matchstar c (matchhere re) text else matchchar c (matchhere (d :: re)) text

/-- The loop of `match`, where `here` is `matchhere` of `re`: the end of the text is looked at
too. -/
def search (here : List UInt8 → Bool) : List UInt8 → Bool
  | [] => here []
  | t :: text => if here (t :: text) then true else search here text

/-- `match` -/
def matchRe : List UInt8 → List UInt8 → Bool
  | [], text => search (matchhere []) text
  | c :: re, text =>
    if c = chr '^' then matchhere re text else search (matchhere (c :: re)) text

/-! ## What a pattern means -/

/-- An item of a pattern: a character, or a character with a star. -/
inductive Item where
  | once (c : UInt8)
  | star (c : UInt8)
  deriving DecidableEq, Repr

/-- The strings of one character that `c` stands for: any, if `c` is a dot, and else `c`. -/
def single (c : UInt8) : Language UInt8 := {w | ∃ t, (c = chr '.' ∨ t = c) ∧ w = [t]}

/-- The language of an item. -/
def Item.lang : Item → Language UInt8
  | .once c => single c
  | .star c => (single c)∗

/-- A pattern without the mark of its beginning: its items, and whether it has the mark of the end
of the text. -/
structure Regex where
  items : List Item
  atEnd : Bool
  deriving DecidableEq, Repr

namespace Regex

/-- The language that the items denote. -/
def lang (r : Regex) : Language UInt8 := (r.items.map Item.lang).prod

def cons (i : Item) (r : Regex) : Regex := ⟨i :: r.items, r.atEnd⟩

/-- The text begins with a word of the language, which is all of it if the pattern has the mark of
the end. -/
def Begins (r : Regex) (text : List UInt8) : Prop :=
  ∃ w rest, text = w ++ rest ∧ w ∈ r.lang ∧ (r.atEnd = true → rest = [])

end Regex

/-- A pattern read from left to right: a character followed by a star is a repetition, a dollar sign
in the last place is the end of the text, and every other character is an item by itself. -/
def read : List UInt8 → Regex
  | [] => ⟨[], false⟩
  | [c] => if c = chr '$' then ⟨[], true⟩ else ⟨[.once c], false⟩
  | c :: d :: re =>
    if d = chr '*' then (read re).cons (.star c) else (read (d :: re)).cons (.once c)

/-- The pattern begins with the mark of the beginning of the text. -/
def anchored (re : List UInt8) : Bool := re.head? = some (chr '^')

/-- What follows the mark of the beginning, if there is one. -/
def body (re : List UInt8) : List UInt8 := if anchored re then re.tail else re

/-! ## Languages of single characters -/

section

variable {c t : UInt8} {w text : List UInt8}

lemma accepts_iff : accepts c t = true ↔ c = chr '.' ∨ t = c := by
  rw [accepts, decide_eq_true_eq, eq_comm (a := c) (b := t)]

lemma mem_single : w ∈ single c ↔ ∃ t, accepts c t = true ∧ w = [t] := by
  simp only [accepts_iff]
  rfl

lemma mem_kstar_single : w ∈ (single c)∗ ↔ ∀ t ∈ w, accepts c t = true := by
  constructor
  · rw [Language.mem_kstar]
    rintro ⟨L, rfl, hL⟩ t ht
    obtain ⟨y, hy, hty⟩ := List.mem_flatten.1 ht
    obtain ⟨t', ht', rfl⟩ := mem_single.1 (hL y hy)
    rwa [List.mem_singleton.1 hty]
  · intro h
    -- the string is cut into its characters
    have hcut : (w.map fun t => [t]).flatten = w := by
      induction w with
      | nil => rfl
      | cons t w ih =>
        rw [List.map_cons, List.flatten_cons, ih fun x hx => h x (List.mem_cons_of_mem t hx)]
        rfl
    rw [← hcut]
    refine Language.join_mem_kstar fun y hy => ?_
    obtain ⟨t, ht, rfl⟩ := List.mem_map.1 hy
    exact mem_single.2 ⟨t, h t ht, rfl⟩

/-- The text begins with a word of `L` and goes on as `P` says. -/
def Split (L : Language UInt8) (P : List UInt8 → Prop) (text : List UInt8) : Prop :=
  ∃ w rest, text = w ++ rest ∧ w ∈ L ∧ P rest

variable {P : List UInt8 → Prop}

lemma split_single_nil : ¬ Split (single c) P [] := by
  rintro ⟨w, rest, h, hw, -⟩
  obtain ⟨t, -, rfl⟩ := mem_single.1 hw
  cases h

lemma split_single_cons : Split (single c) P (t :: text) ↔ accepts c t = true ∧ P text := by
  constructor
  · rintro ⟨w, rest, h, hw, hP⟩
    obtain ⟨t', ht', rfl⟩ := mem_single.1 hw
    obtain ⟨rfl, rfl⟩ := List.cons.inj h
    exact ⟨ht', hP⟩
  · rintro ⟨ht, hP⟩
    exact ⟨[t], text, rfl, mem_single.2 ⟨t, ht, rfl⟩, hP⟩

lemma split_kstar_nil : Split (single c)∗ P [] ↔ P [] := by
  constructor
  · rintro ⟨w, rest, h, -, hP⟩
    obtain ⟨-, rfl⟩ := List.append_eq_nil_iff.1 h.symm
    exact hP
  · intro hP
    exact ⟨[], [], rfl, Language.nil_mem_kstar _, hP⟩

lemma split_kstar_cons : Split (single c)∗ P (t :: text) ↔
    P (t :: text) ∨ accepts c t = true ∧ Split (single c)∗ P text := by
  constructor
  · rintro ⟨w, rest, h, hw, hP⟩
    rw [mem_kstar_single] at hw
    cases w with
    | nil => exact .inl (by rwa [h])
    | cons t' w =>
      obtain ⟨rfl, rfl⟩ := List.cons.inj h
      refine .inr ⟨hw t List.mem_cons_self, w, rest, rfl, ?_, hP⟩
      exact mem_kstar_single.2 fun x hx => hw x (List.mem_cons_of_mem t hx)
  · rintro (hP | ⟨ht, w, rest, rfl, hw, hP⟩)
    · exact ⟨[], t :: text, rfl, Language.nil_mem_kstar _, hP⟩
    · refine ⟨t :: w, rest, rfl, mem_kstar_single.2 fun x hx => ?_, hP⟩
      obtain rfl | hx := List.mem_cons.1 hx
      · exact ht
      · exact mem_kstar_single.1 hw x hx

end

/-! ## Reading a pattern item by item -/

namespace Regex

variable {i : Item} {r : Regex} {text : List UInt8}

lemma begins_nil : Begins ⟨[], false⟩ text :=
  ⟨[], text, rfl, rfl, by rintro ⟨⟩⟩

lemma begins_atEnd : Begins ⟨[], true⟩ text ↔ text = [] := by
  constructor
  · rintro ⟨w, rest, rfl, hw, hrest⟩
    have hw : w = [] := hw
    rw [hw, hrest rfl, List.append_nil]
  · rintro rfl
    exact ⟨[], [], rfl, rfl, fun _ => rfl⟩

lemma begins_cons : (r.cons i).Begins text ↔ Split i.lang r.Begins text := by
  constructor
  · rintro ⟨w, rest, rfl, hw, hrest⟩
    obtain ⟨a, ha, b, hb, rfl⟩ := Language.mem_mul.1 hw
    exact ⟨a, b ++ rest, List.append_assoc a b rest, ha, b, rest, rfl, hb, hrest⟩
  · rintro ⟨a, rest, rfl, ha, b, rest', rfl, hb, hrest⟩
    exact ⟨a ++ b, rest', (List.append_assoc a b rest').symm, Language.append_mem_mul ha hb, hrest⟩

lemma begins_once {c : UInt8} :
    (r.cons (.once c)).Begins text ↔ Split (single c) r.Begins text := begins_cons

lemma begins_star {c : UInt8} :
    (r.cons (.star c)).Begins text ↔ Split (single c)∗ r.Begins text := begins_cons

end Regex

/-! ## The matcher is right -/

section

variable {here : List UInt8 → Bool} {P : List UInt8 → Prop}

section

variable (h : ∀ text, here text = true ↔ P text)

include h

lemma matchchar_iff (c : UInt8) (text : List UInt8) :
    matchchar c here text = true ↔ Split (single c) P text := by
  cases text with
  | nil => simpa [matchchar] using split_single_nil
  | cons t text =>
    rw [split_single_cons, matchchar, ← h text]
    cases accepts c t <;> simp

lemma matchstar_iff (c : UInt8) (text : List UInt8) :
    matchstar c here text = true ↔ Split (single c)∗ P text := by
  induction text with
  | nil => rw [split_kstar_nil, matchstar, h]
  | cons t text ih =>
    rw [split_kstar_cons, matchstar, ← h, ← ih]
    cases here (t :: text) <;> cases accepts c t <;> simp

lemma search_iff (text : List UInt8) :
    search here text = true ↔ ∃ u v, text = u ++ v ∧ P v := by
  induction text with
  | nil =>
    rw [search, h]
    constructor
    · intro hP
      exact ⟨[], [], rfl, hP⟩
    · rintro ⟨u, v, huv, hP⟩
      obtain ⟨-, rfl⟩ := List.append_eq_nil_iff.1 huv.symm
      exact hP
  | cons t text ih =>
    have hstep : search here (t :: text) = true ↔
        here (t :: text) = true ∨ search here text = true := by
      rw [search]
      cases here (t :: text) <;> simp
    rw [hstep, h, ih]
    constructor
    · rintro (hP | ⟨u, v, rfl, hP⟩)
      · exact ⟨[], t :: text, rfl, hP⟩
      · exact ⟨t :: u, v, rfl, hP⟩
    · rintro ⟨u, v, huv, hP⟩
      cases u with
      | nil => exact .inl (by rwa [huv])
      | cons t' u =>
        obtain ⟨rfl, rfl⟩ := List.cons.inj huv
        exact .inr ⟨u, v, rfl, hP⟩

end

end

lemma matchhere_iff (re text : List UInt8) : matchhere re text = true ↔ (read re).Begins text := by
  fun_induction read re generalizing text with
  | case1 => exact iff_of_true rfl Regex.begins_nil
  | case2 => rw [matchhere, if_pos rfl, decide_eq_true_eq, Regex.begins_atEnd]
  | case3 c hc =>
    rw [matchhere, if_neg hc]
    have hnil : ∀ text, matchhere [] text = true ↔ Regex.Begins ⟨[], false⟩ text := fun _ =>
      iff_of_true rfl Regex.begins_nil
    exact (matchchar_iff hnil c text).trans
      (Regex.begins_once (r := ⟨[], false⟩)).symm
  | case4 c re ih =>
    rw [matchhere, if_pos rfl]
    exact (matchstar_iff ih c text).trans Regex.begins_star.symm
  | case5 c d re hd ih =>
    rw [matchhere, if_neg hd]
    exact (matchchar_iff ih c text).trans Regex.begins_once.symm

lemma matchRe_eq (re text : List UInt8) : matchRe re text =
    if anchored re then matchhere (body re) text else search (matchhere (body re)) text := by
  cases re with
  | nil => rfl
  | cons c re =>
    by_cases hc : c = chr '^'
    · have ha : anchored (c :: re) = true := by simp [anchored, hc]
      rw [matchRe, if_pos hc, if_pos ha, body, if_pos ha, List.tail_cons]
    · have ha : ¬ anchored (c :: re) = true := by simp [anchored, hc]
      rw [matchRe, if_neg hc, if_neg ha, body, if_neg ha]

/-- `match` finds out whether the text has a substring in the language of the pattern, which is at
the beginning or at the end of the text where the pattern says so. -/
theorem matchRe_iff (re text : List UInt8) :
    matchRe re text = true ↔
      ∃ u w v, text = u ++ w ++ v ∧ w ∈ (read (body re)).lang ∧
        (anchored re = true → u = []) ∧ ((read (body re)).atEnd = true → v = []) := by
  rw [matchRe_eq]
  split
  · rename_i ha
    rw [matchhere_iff]
    constructor
    · rintro ⟨w, v, rfl, hw, hv⟩
      exact ⟨[], w, v, rfl, hw, fun _ => rfl, hv⟩
    · rintro ⟨u, w, v, rfl, hw, hu, hv⟩
      rw [hu ha]
      exact ⟨w, v, rfl, hw, hv⟩
  · rename_i ha
    rw [search_iff (matchhere_iff (body re))]
    constructor
    · rintro ⟨u, x, rfl, w, v, rfl, hw, hv⟩
      exact ⟨u, w, v, (List.append_assoc u w v).symm, hw, fun h => absurd h ha, hv⟩
    · rintro ⟨u, w, v, rfl, hw, -, hv⟩
      exact ⟨u, w ++ v, List.append_assoc u w v, w, v, rfl, hw, hv⟩

end Xv6.Grep
