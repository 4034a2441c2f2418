import Mathlib.Data.List.Forall2
import PipelineMigration.Proofs.Script.Comment
set_option autoImplicit false

/- Comments are masked where they stand. A script is passed literal by literal, comment by comment and else character by
   character; only the characters of comments change, each into a blank unless it ends a line. So places and line numbers
   in what is left are those in the script. -/
namespace PipelineMigration.Script

/-- What is passed at once when comments are taken out. -/
inductive Passage where
  | literal (s : Text)
  | comment (s : Text)
  | single (c : Char)
deriving DecidableEq

namespace Passage

def text : Passage → Text
  | literal s => s
  | comment s => s
  | single c => [c]

def masked : Passage → Text
  | literal s => s
  | comment s => s.map blank
  | single c => [c]

end Passage

def passages : Text → List Passage
  | [] => []
  | c :: r =>
    if Text.isQuote c then
      .literal ((c :: r).take (literalLength (c :: r))) :: passages ((c :: r).drop (literalLength (c :: r)))
    else if c == '/' && r.head? == some '/' then
      .comment ((c :: r).take (lineCommentLength (c :: r))) :: passages ((c :: r).drop (lineCommentLength (c :: r)))
    else if c == '/' && r.head? == some '*' then
      .comment ((c :: r).take (blockCommentLength (c :: r))) :: passages ((c :: r).drop (blockCommentLength (c :: r)))
    else .single c :: passages r
termination_by s => s.length
decreasing_by
  · exact drop_shorter (literalLength_pos c r) c r
  · rename_i opens
    exact drop_shorter (line_comment_pos (beq_iff_eq.1 (Bool.and_eq_true_iff.1 opens).1) r) c r
  · exact drop_shorter (block_comment_pos c r) c r
  · exact Nat.lt_succ_self _

theorem passages_text (s : Text) : (passages s).flatMap Passage.text = s := by
  fun_induction passages s with
  | case1 => rfl
  | case2 c r _ ih => rw [List.flatMap_cons, ih, Passage.text, List.take_append_drop]
  | case3 c r _ _ ih => rw [List.flatMap_cons, ih, Passage.text, List.take_append_drop]
  | case4 c r _ _ _ ih => rw [List.flatMap_cons, ih, Passage.text, List.take_append_drop]
  | case5 c r _ _ _ ih => rw [List.flatMap_cons, ih, Passage.text, List.singleton_append]

theorem passages_masked (s : Text) : (passages s).flatMap Passage.masked = stripComments s := by
  unfold stripComments
  fun_induction passages s with
  | case1 => rfl
  | case2 c r quote ih => rw [List.flatMap_cons, ih, Passage.masked, strip_literal quote]
  | case3 c r quote line ih =>
    obtain rfl : c = '/' := beq_iff_eq.1 (Bool.and_eq_true_iff.1 line).1
    rw [List.flatMap_cons, ih, Passage.masked, stripFrom, if_neg quote, if_pos line,
      strip_comment _ _ (line_comment_pos rfl r)]
    rfl
  | case4 c r quote line block ih =>
    obtain rfl : c = '/' := beq_iff_eq.1 (Bool.and_eq_true_iff.1 block).1
    rw [List.flatMap_cons, ih, Passage.masked, stripFrom, if_neg quote, if_neg line, if_pos block,
      strip_comment _ _ (block_comment_pos '/' r)]
    rfl
  | case5 c r quote line block ih =>
    rw [List.flatMap_cons, ih, Passage.masked, stripFrom, if_neg quote, if_neg line, if_neg block]
    rfl

/-- A character stays as it is, or is blanked and does not end a line. -/
def Masks (c d : Char) : Prop := d = c ∨ d = ' ' ∧ c ≠ '\n'

theorem masks_blank (c : Char) : Masks c (blank c) := by
  unfold blank
  split
  · rename_i feed
    exact .inl (beq_iff_eq.1 feed).symm
  · rename_i other
    exact .inr ⟨rfl, fun same => other (beq_iff_eq.2 same)⟩

theorem masks_self (s : Text) : List.Forall₂ Masks s s := List.forall₂_same.2 fun _ _ => .inl rfl

theorem Passage.masks (p : Passage) : List.Forall₂ Masks p.text p.masked := by
  cases p with
  | literal s => exact masks_self s
  | comment s => exact List.forall₂_map_right_iff.2 (List.forall₂_same.2 fun c _ => masks_blank c)
  | single c => exact masks_self [c]

theorem passages_mask (ps : List Passage) :
    List.Forall₂ Masks (ps.flatMap Passage.text) (ps.flatMap Passage.masked) := by
  induction ps with
  | nil => exact .nil
  | cons p ps ih => exact List.rel_append p.masks ih

theorem strip_masks (s : Text) : List.Forall₂ Masks s (stripComments s) := by
  have held := passages_mask (passages s)
  rwa [passages_text, passages_masked] at held

theorem masks_feeds {s t : Text} (masks : List.Forall₂ Masks s t) : t.count '\n' = s.count '\n' := by
  induction masks with
  | nil => rfl
  | cons here _ ih =>
    rcases here with rfl | ⟨rfl, other⟩
    · rw [List.count_cons, List.count_cons, ih]
    · rw [List.count_cons_of_ne (by decide), List.count_cons_of_ne other, ih]

/-- What is left of a script without comments is as long as the script, has at every place the character of the script
    or a blank for one that ends no line, has the same lines, and is made of the passages of the script, each literal
    among them where it was. -/
theorem comments_masked (s : Text) :
    (stripComments s).length = s.length ∧
    (∀ (i : Nat) c, s[i]? = some c → (stripComments s)[i]? = some c ∨ (stripComments s)[i]? = some ' ' ∧ c ≠ '\n') ∧
    (∀ i, Text.lineAt (stripComments s) i = Text.lineAt s i) ∧
    ((passages s).flatMap Passage.text = s ∧ (passages s).flatMap Passage.masked = stripComments s) ∧
    ∀ before l after, passages s = before ++ .literal l :: after →
      l <+: s.drop (before.flatMap Passage.text).length ∧
      l <+: (stripComments s).drop (before.flatMap Passage.text).length := by
  have masks := strip_masks s
  refine ⟨masks.length_eq.symm, fun i c here => ?_, fun i => ?_, ⟨passages_text s, passages_masked s⟩,
    fun before l after shape => ?_⟩
  · obtain ⟨bound, rfl⟩ := List.getElem?_eq_some_iff.1 here
    have bound' : i < (stripComments s).length := masks.length_eq ▸ bound
    have either := masks.get bound bound'
    rw [List.getElem?_eq_getElem bound']
    exact either.imp (congrArg some) fun ⟨space, other⟩ => ⟨congrArg some space, other⟩
  · rw [Text.lineAt, Text.lineAt, masks_feeds (List.forall₂_take i masks)]
  · -- The passages before a literal take up as much in both texts.
    have text := passages_text s
    have left := passages_masked s
    have place : (before.flatMap Passage.masked).length = (before.flatMap Passage.text).length :=
      (passages_mask before).length_eq.symm
    rw [shape, List.flatMap_append, List.flatMap_cons] at text left
    constructor
    · rw [← text, List.drop_left]
      exact List.prefix_append l _
    · rw [← left, ← place, List.drop_left]
      exact List.prefix_append l _

example : stripComments "sh 'http://a' // b\n/* c\nd */ e" = "sh 'http://a'     \n    \n     e".toList := by decide

end PipelineMigration.Script
