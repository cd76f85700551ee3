import QueryContract.Artifact.Comment
import QueryContract.Artifact.Literal
import QueryContract.Proofs.Artifact.Scanner

/-!
The three ways to write foreign text: after each of them the scan is where it was before, whatever
the text is.
-/

namespace QueryContract.Artifact

open Literal (escapeSingle escapeDollar)
open Text.Quoted (encodeChar hexCharacter hexDigits)

variable {kind : Mark}

theorem contained_escapeSingle (hk : kind.isBrace = false) (text : List Char) :
    Contained (.single false) (Marked.mark kind (text.flatMap escapeSingle)) (.single false) := by
  apply contained_flatMap
  intro c _
  rw [escapeSingle]
  split
  · exact contained_single_pair hk c
  · rename_i plain
    rw [not_or] at plain
    exact contained_single_char hk plain.1 plain.2

theorem hexCharacter_plain (value : Nat) :
    hexCharacter value ≠ '\\' ∧ hexCharacter value ≠ '"' ∧ hexCharacter value ≠ '$' := by
  have digits : (hexDigits.all fun c => c != '\\' && c != '"' && c != '$') = true := by decide
  suffices member : hexCharacter value ∈ hexDigits by
    simpa [and_assoc] using List.all_eq_true.mp digits _ member
  rw [hexCharacter, List.getD_eq_getElem?_getD]
  have bound : value % 16 < hexDigits.length := Nat.mod_lt _ (by decide)
  rw [List.getElem?_eq_getElem bound]
  exact List.getElem_mem bound

theorem flatMap_escapeDollar_of_forall_ne {text : List Char} (h : ∀ c ∈ text, c ≠ '$') :
    text.flatMap escapeDollar = text := by
  induction text with
  | nil => rfl
  | cons c rest ih =>
    obtain ⟨plain, later⟩ := List.forall_mem_cons.mp h
    rw [List.flatMap_cons, ih later, escapeDollar, if_neg plain]
    rfl

theorem flatMap_escapeDollar_unicodeEscape (high low : Nat) :
    ['\\', 'u', '0', '0', hexCharacter high, hexCharacter low].flatMap escapeDollar =
      ['\\', 'u', '0', '0', hexCharacter high, hexCharacter low] := by
  apply flatMap_escapeDollar_of_forall_ne
  simp [(hexCharacter_plain high).2.2, (hexCharacter_plain low).2.2]

theorem contained_unicodeEscape (hk : kind.isBrace = false) (high low : Nat) :
    Contained (.double false)
      (Marked.mark kind
        (['\\', 'u', '0', '0', hexCharacter high, hexCharacter low].flatMap escapeDollar))
      (.double false) := by
  obtain ⟨backslash, quote, dollar⟩ := hexCharacter_plain high
  obtain ⟨backslash', quote', dollar'⟩ := hexCharacter_plain low
  rw [flatMap_escapeDollar_unicodeEscape]
  have zero : Contained (.double false) (Marked.mark kind ['0']) (.double false) :=
    contained_double_char hk (by decide) (by decide) (by decide)
  have digits := (contained_double_char hk backslash quote dollar).append
    (contained_double_char hk backslash' quote' dollar')
  exact (contained_double_pair hk 'u').append (zero.append (zero.append digits))

/-- A character of quoted text is itself, or a backslash comes before what stands for it. -/
theorem contained_encodeChar (hk : kind.isBrace = false) (c : Char) :
    Contained (.double false) (Marked.mark kind ((encodeChar c).flatMap escapeDollar))
      (.double false) := by
  rw [encodeChar]
  split
  · exact contained_double_pair hk '"'
  split
  · exact contained_double_pair hk '\\'
  split
  · exact contained_double_pair hk 'b'
  split
  · exact contained_double_pair hk 'f'
  split
  · exact contained_double_pair hk 'n'
  split
  · exact contained_double_pair hk 'r'
  split
  · exact contained_double_pair hk 't'
  split
  · exact contained_unicodeEscape hk _ _
  · rename_i quote backslash _ _ _ _ _ _
    rw [List.flatMap_singleton, escapeDollar]
    split
    · exact contained_double_pair hk '$'
    · rename_i dollar
      exact contained_double_char hk backslash quote dollar

theorem contained_escapeDouble (hk : kind.isBrace = false) (text : List Char) :
    Contained (.double false)
      (Marked.mark kind ((text.flatMap encodeChar).flatMap escapeDollar)) (.double false) := by
  rw [List.flatMap_assoc]
  exact contained_flatMap fun c _ => contained_encodeChar hk c

/-- The guarded text holds no mark that ends a comment, nor does one arise from a star before it. -/
theorem quiet_guardComment {star : Bool} {text : List Char}
    (h : ¬(star = true ∧ text.head? = some '/')) : Quiet star (guardComment text) := by
  induction text generalizing star with
  | nil => trivial
  | cons c rest ih =>
    rw [guardComment]
    split
    · have later : Quiet false (guardComment rest) := ih fun starred => nomatch starred.1
      have star : ¬(star = true ∧ '*' = '/') := fun slash => absurd slash.2 (by decide)
      have backslash : ¬(decide ('*' = '*') = true ∧ '\\' = '/') := fun slash =>
        absurd slash.2 (by decide)
      exact ⟨star, backslash, later⟩
    · rename_i unmarked
      refine ⟨fun slash => h ⟨slash.1, by rw [slash.2]; rfl⟩, ih ?_⟩
      exact fun starred => unmarked ⟨of_decide_eq_true starred.1, starred.2⟩

end QueryContract.Artifact
