import Mathlib.Data.List.Basic

/-! Texts with offsets in bytes of UTF-8, as a program whose strings are UTF-8 slices
them: an offset inside a character, or behind the end, is no place to cut at. -/
namespace WindbgMcp.Library.Utf8

def byteLen : List Char → Nat
  | [] => 0
  | c :: rest => c.utf8Size + byteLen rest

def cut : List Char → Nat → Option (List Char × List Char)
  | text, 0 => some ([], text)
  | [], _ + 1 => none
  | c :: rest, offset + 1 =>
    if c.utf8Size ≤ offset + 1 then
      (cut rest (offset + 1 - c.utf8Size)).map fun (front, back) => (c :: front, back)
    else none

def isBoundary (text : List Char) (offset : Nat) : Bool := (cut text offset).isSome

/-- `text[start..]` -/
def sliceFrom (text : List Char) (start : Nat) : Option (List Char) :=
  (cut text start).map Prod.snd

/-- `text[..stop]` -/
def sliceTo (text : List Char) (stop : Nat) : Option (List Char) :=
  (cut text stop).map Prod.fst

/-- `text[start..stop]` -/
def slice (text : List Char) (start stop : Nat) : Option (List Char) :=
  if start ≤ stop then
    (sliceFrom text start).bind fun rest => sliceTo rest (stop - start)
  else none

def floorBoundary (text : List Char) : Nat → Nat
  | 0 => 0
  | offset + 1 => if isBoundary text (offset + 1) then offset + 1 else floorBoundary text offset

def truncate (text : List Char) (limit : Nat) : List Char :=
  (sliceTo text (floorBoundary text limit)).getD text

@[simp] theorem byteLen_nil : byteLen [] = 0 := rfl

@[simp] theorem byteLen_cons (c : Char) (rest : List Char) :
    byteLen (c :: rest) = c.utf8Size + byteLen rest := rfl

@[simp] theorem byteLen_append (front back : List Char) :
    byteLen (front ++ back) = byteLen front + byteLen back := by
  induction front with
  | nil => simp
  | cons c front ih =>
    rw [List.cons_append, byteLen_cons, byteLen_cons, ih]
    omega

theorem length_le_byteLen (text : List Char) : text.length ≤ byteLen text := by
  induction text with
  | nil => exact Nat.le_refl 0
  | cons c rest ih =>
    have hpos := c.utf8Size_pos
    rw [List.length_cons, byteLen_cons]
    omega

@[simp] theorem cut_byteLen (front back : List Char) :
    cut (front ++ back) (byteLen front) = some (front, back) := by
  induction front with
  | nil => cases back <;> rfl
  | cons c front ih =>
    have hpos := c.utf8Size_pos
    rw [byteLen_cons, List.cons_append]
    obtain ⟨size, hsize⟩ : ∃ size, c.utf8Size + byteLen front = size + 1 :=
      ⟨c.utf8Size + byteLen front - 1, by omega⟩
    have hback : size + 1 - c.utf8Size = byteLen front := by omega
    rw [hsize, cut, if_pos (by omega), hback, ih]
    rfl

theorem cut_eq_some {text front back : List Char} {offset : Nat}
    (h : cut text offset = some (front, back)) :
    text = front ++ back ∧ offset = byteLen front := by
  fun_induction cut text offset generalizing front with
  | case1 text =>
    obtain ⟨rfl, rfl⟩ := Prod.mk.inj (Option.some.inj h)
    exact ⟨rfl, rfl⟩
  | case2 => cases h
  | case3 c rest offset hsize ih =>
    obtain ⟨⟨front', back'⟩, hrest, heq⟩ := Option.map_eq_some_iff.mp h
    obtain ⟨rfl, rfl⟩ := Prod.mk.inj heq
    obtain ⟨hback, hoffset⟩ := ih hrest
    constructor
    · rw [hback]
      rfl
    · rw [byteLen_cons]
      omega
  | case4 => cases h

@[simp] theorem sliceFrom_byteLen (front back : List Char) :
    sliceFrom (front ++ back) (byteLen front) = some back := by
  rw [sliceFrom, cut_byteLen]
  rfl

@[simp] theorem sliceTo_byteLen (front back : List Char) :
    sliceTo (front ++ back) (byteLen front) = some front := by
  rw [sliceTo, cut_byteLen]
  rfl

theorem slice_byteLen (front middle back : List Char) :
    slice (front ++ (middle ++ back)) (byteLen front) (byteLen front + byteLen middle) =
      some middle := by
  rw [slice, if_pos (Nat.le_add_right _ _), sliceFrom_byteLen, Nat.add_sub_cancel_left]
  exact sliceTo_byteLen middle back

theorem isBoundary_zero (text : List Char) : isBoundary text 0 = true := by
  cases text <;> rfl

theorem isBoundary_floorBoundary (text : List Char) (offset : Nat) :
    isBoundary text (floorBoundary text offset) = true := by
  induction offset with
  | zero => exact isBoundary_zero text
  | succ offset ih =>
    rw [floorBoundary]
    split
    · assumption
    · exact ih

theorem floorBoundary_le (text : List Char) (offset : Nat) :
    floorBoundary text offset ≤ offset := by
  induction offset with
  | zero => exact Nat.le_refl 0
  | succ offset ih =>
    rw [floorBoundary]
    split
    · exact Nat.le_refl _
    · omega

theorem sliceTo_floorBoundary (text : List Char) (limit : Nat) :
    sliceTo text (floorBoundary text limit) = some (truncate text limit) := by
  have hboundary := isBoundary_floorBoundary text limit
  rw [isBoundary, Option.isSome_iff_exists] at hboundary
  obtain ⟨halves, hhalves⟩ := hboundary
  rw [truncate, sliceTo, hhalves]
  rfl

theorem truncate_spec (text : List Char) (limit : Nat) :
    ∃ dropped, text = truncate text limit ++ dropped ∧ byteLen (truncate text limit) ≤ limit := by
  have hslice := sliceTo_floorBoundary text limit
  rw [sliceTo, Option.map_eq_some_iff] at hslice
  obtain ⟨⟨front, back⟩, hcut, hfront⟩ := hslice
  obtain ⟨htext, hoffset⟩ := cut_eq_some hcut
  have hle := floorBoundary_le text limit
  change front = _ at hfront
  rw [← hfront]
  exact ⟨back, htext, by omega⟩

end WindbgMcp.Library.Utf8
