/-
  Trivariate.Proofs.Text.Position
  ───────────────────────────────
  **BYTE OFFSETS INTO A TEXT.**

  A byte offset lies between two characters of a text, at one of its ends, or
  inside a character; only in the first two cases may the text be cut there.
  What lies before and behind such an offset says which: the offset is the
  number of bytes of the characters before it.

  Every token stands in its text at the token's offset.

  Main results:

      Ahead.isBoundary   the characters that are left begin on a boundary
      Ahead.slice?_eq    a piece of them can be cut out
      Cut.standsAt       a token stands at its offset
      Cut.begins         and begins with a character that is not blank
-/
import Trivariate.Proofs.Text.Cut

namespace Trivariate.Text

/-! ## §1. Boundaries. -/

theorem byteLength_toList (text : String) :
    byteLength text.toList = text.utf8ByteSize := by
  have hofList : ∀ cs : List Char, byteLength cs = (String.ofList cs).utf8ByteSize := by
    intro cs
    induction cs with
    | nil => rfl
    | cons c cs ih =>
      rw [byteLength_cons, ih, String.ofList_cons, String.utf8ByteSize_append,
        String.utf8ByteSize_singleton]
  rw [hofList, String.ofList_toList]

/-- Every character takes up at least one byte. -/
theorem length_le_byteLength (cs : List Char) : cs.length ≤ byteLength cs := by
  induction cs with
  | nil => exact Nat.le_refl 0
  | cons c cs ih =>
    have hpos := Char.utf8Size_pos c
    rw [List.length_cons, byteLength_cons]
    omega

/-- The offset is between two characters of the text, or at one of its ends. -/
def IsBoundary (text : String) (offset : Nat) : Prop :=
  (⟨offset⟩ : String.Pos.Raw).IsValid text

instance (text : String) (offset : Nat) : Decidable (IsBoundary text offset) :=
  inferInstanceAs (Decidable (String.Pos.Raw.IsValid text _))

theorem IsBoundary.le {text : String} {offset : Nat} (h : IsBoundary text offset) :
    offset ≤ text.utf8ByteSize :=
  h.le_utf8ByteSize

theorem isBoundary_end (text : String) : IsBoundary text text.utf8ByteSize :=
  String.Pos.Raw.isValid_rawEndPos

/-- The piece stands in the text at the offset. -/
def StandsAt (text : String) (offset : Nat) (piece : String) : Prop :=
  ∃ before after : String, text = before ++ piece ++ after
    ∧ before.utf8ByteSize = offset

theorem StandsAt.isBoundary {text piece : String} {offset : Nat}
    (h : StandsAt text offset piece) : IsBoundary text offset := by
  obtain ⟨before, after, rfl, rfl⟩ := h
  refine String.Pos.Raw.isValid_iff_exists_append.2 ⟨before, piece ++ after, ?_, rfl⟩
  rw [String.append_assoc]

/-- Where a piece stands, its first character does. -/
theorem StandsAt.first {text piece : String} {offset : Nat} {c : Char} {cs : List Char}
    (h : StandsAt text offset piece) (hpiece : piece.toList = c :: cs) :
    StandsAt text offset (String.singleton c) := by
  obtain ⟨before, after, htext, hbefore⟩ := h
  refine ⟨before, String.ofList cs ++ after, ?_, hbefore⟩
  have hsplit : piece = String.singleton c ++ String.ofList cs := by
    rw [← String.toList_inj, hpiece, String.toList_append, String.toList_singleton,
      String.toList_ofList]
    rfl
  rw [htext, hsplit, String.append_assoc, String.append_assoc, String.append_assoc]

/-! ## §2. What is left of a text. -/

/-- From the offset on these characters are left of the text. -/
def Ahead (text : String) (offset : Nat) (cs : List Char) : Prop :=
  ∃ before, text.toList = before ++ cs ∧ byteLength before = offset

section ahead

variable {text : String} {offset : Nat} {cs ds : List Char} {c : Char}

theorem ahead_start (text : String) : Ahead text 0 text.toList :=
  ⟨[], rfl, rfl⟩

theorem Ahead.append (h : Ahead text offset (cs ++ ds)) :
    Ahead text (offset + byteLength cs) ds := by
  obtain ⟨before, htext, rfl⟩ := h
  refine ⟨before ++ cs, ?_, byteLength_append ..⟩
  rw [htext, List.append_assoc]

theorem Ahead.cons (h : Ahead text offset (c :: cs)) :
    Ahead text (offset + c.utf8Size) cs := by
  have hpiece : Ahead text offset ([c] ++ cs) := h
  have htail := hpiece.append
  rwa [byteLength_cons, byteLength_nil, Nat.add_zero] at htail

/-- What is left takes up the bytes from the offset to the end. -/
theorem Ahead.size (h : Ahead text offset cs) :
    offset + byteLength cs = text.utf8ByteSize := by
  obtain ⟨before, htext, rfl⟩ := h
  rw [← byteLength_toList, htext, byteLength_append]

theorem Ahead.standsAt {piece : String}
    (h : Ahead text offset (piece.toList ++ cs)) : StandsAt text offset piece := by
  obtain ⟨before, htext, rfl⟩ := h
  refine ⟨String.ofList before, String.ofList cs, ?_, ?_⟩
  · rw [← String.toList_inj, String.toList_append, String.toList_append,
      String.toList_ofList, String.toList_ofList, htext, List.append_assoc]
  · rw [← byteLength_toList, String.toList_ofList]

theorem Ahead.isBoundary (h : Ahead text offset cs) : IsBoundary text offset := by
  have hpiece : Ahead text offset ("".toList ++ cs) := h
  exact hpiece.standsAt.isBoundary

end ahead

/-! ## §3. Slices. -/

/-- The text between two offsets; there is none unless both are boundaries and
in their order. -/
def slice? (text : String) (start stop : Nat) : Option String :=
  if h : start ≤ stop ∧ IsBoundary text start ∧ IsBoundary text stop then
    some (text.extract (text.pos ⟨start⟩ h.2.1) (text.pos ⟨stop⟩ h.2.2))
  else none

/-- A piece of what is left of the text can be cut out of it. -/
theorem Ahead.slice?_eq {text : String} {offset : Nat} {piece cs : List Char}
    (h : Ahead text offset (piece ++ cs)) :
    slice? text offset (offset + byteLength piece) = some (String.ofList piece) := by
  have hstart : IsBoundary text offset := h.isBoundary
  have hstop : IsBoundary text (offset + byteLength piece) := h.append.isBoundary
  unfold slice?
  rw [dif_pos ⟨Nat.le_add_right .., hstart, hstop⟩]
  obtain ⟨before, htext, rfl⟩ := h
  -- in bytes, the text is what lies before the piece, the piece and the rest
  have hbytes : text.toByteArray = (String.ofList before).toByteArray
      ++ ((String.ofList piece).toByteArray ++ (String.ofList cs).toByteArray) := by
    rw [← String.toByteArray_append, ← String.toByteArray_append,
      String.toByteArray_inj, ← String.ofList_append, ← String.ofList_append, ← htext,
      String.ofList_toList]
  have hsize : ∀ ds : List Char,
      byteLength ds = (String.ofList ds).toByteArray.size := by
    intro ds
    rw [String.size_toByteArray, ← byteLength_toList, String.toList_ofList]
  refine congrArg some (String.toByteArray_inj.1 ?_)
  rw [String.toByteArray_extract]
  show text.toByteArray.extract (byteLength before + 0)
    (byteLength before + byteLength piece) = _
  rw [hbytes, ByteArray.extract_append_size_add' (hsize before),
    ByteArray.extract_append_eq_left (hsize piece)]

/-- So can all that is left. -/
theorem Ahead.slice?_rest {text : String} {offset : Nat} {cs : List Char}
    (h : Ahead text offset cs) :
    slice? text offset text.utf8ByteSize = some (String.ofList cs) := by
  have hpiece : Ahead text offset (cs ++ []) := by rwa [List.append_nil]
  rw [← h.size]
  exact hpiece.slice?_eq

/-- The first letter takes up two bytes and cannot be cut. -/
example : slice? "é+" 0 1 = none ∧ slice? "é+" 0 2 = some "é" := by decide +kernel

/-! ## §4. Tokens. -/

/-- The tokens of a cut stand where their offsets say. -/
theorem Cut.standsAt {isMark : Char → Bool} {text : String} {offset : Nat}
    {cs : List Char} {ts : List Token} (h : Cut isMark offset cs ts)
    (hcs : Ahead text offset cs) : ∀ t ∈ ts, StandsAt text t.offset t.text := by
  induction h with
  | nil => simp
  | blank _ _ ih => exact ih hcs.cons
  | @mark offset c cs ts _ _ _ ih =>
    refine List.forall_mem_cons.2 ⟨?_, ih hcs.cons⟩
    have hpiece : Ahead text offset ((String.singleton c).toList ++ cs) := by
      rwa [String.toList_singleton]
    exact hpiece.standsAt
  | @word offset run cs ts _ _ _ _ ih =>
    refine List.forall_mem_cons.2 ⟨?_, ih hcs.append⟩
    have hpiece : Ahead text offset ((String.ofList run).toList ++ cs) := by
      rwa [String.toList_ofList]
    exact hpiece.standsAt

/-- The tokens of a cut begin with a character that is not blank. -/
theorem Cut.begins {isMark : Char → Bool} {offset : Nat} {cs : List Char}
    {ts : List Token} (h : Cut isMark offset cs ts) :
    ∀ t ∈ ts, ∃ c ds, t.text.toList = c :: ds ∧ isBlank c = false := by
  induction h with
  | nil => simp
  | blank _ _ ih => exact ih
  | @mark offset c cs ts notBlank _ _ ih =>
    exact List.forall_mem_cons.2 ⟨⟨c, [], String.toList_singleton c, notBlank⟩, ih⟩
  | @word offset run cs ts nonempty inner _ _ ih =>
    refine List.forall_mem_cons.2 ⟨?_, ih⟩
    obtain ⟨c, ds, rfl⟩ := List.exists_cons_of_ne_nil nonempty
    exact ⟨c, ds, String.toList_ofList,
      (isInner_iff.1 (inner c List.mem_cons_self)).1⟩

theorem begins_of_mem_scan {isMark : Char → Bool} {text : String} {t : Token}
    (h : t ∈ scan isMark text) : ∃ c cs, t.text.toList = c :: cs ∧ isBlank c = false :=
  (scan_eq_iff.1 rfl).begins t h

theorem standsAt_of_mem_scan {isMark : Char → Bool} {text : String} {t : Token}
    (h : t ∈ scan isMark text) : StandsAt text t.offset t.text :=
  (scan_eq_iff.1 rfl).standsAt (ahead_start text) t h

end Trivariate.Text
