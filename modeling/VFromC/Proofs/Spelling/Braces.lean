import VFromC.Proofs.Text.Braces
import VFromC.Spelling.Convert
/-!
Names and types of the output have no braces in them when the names and types they are made from
have none.
-/
namespace VFromC

namespace Ident
open VFromC.Text

variable {name : String}

theorem braces_spell (h : braces name = []) : braces (spell name) = [] := by
  unfold spell
  split
  · exact free_append h rfl
  · split
    · exact free_append rfl h
    · split
      · rfl
      · exact h

theorem braces_lowered (h : braces name = []) : braces (lowered name) = [] :=
  braces_ofList (braces_eq_nil.mp h).lower

theorem braces_spellMember (h : braces name = []) : braces (spellMember name) = [] := by
  unfold spellMember
  dsimp only
  split
  · exact free_append (braces_lowered h) rfl
  · exact braces_lowered h

theorem braces_capitalized (h : braces name = []) : braces (capitalized name) = [] :=
  braces_ofList (braces_eq_nil.mp h).capitalizeFirst

theorem typeNameChars_free {s : List Char} (h : BraceFree s) : BraceFree (typeNameChars s) := by
  unfold typeNameChars
  split
  · exact h
  · exact (h.sublist (List.dropWhile_sublist _)).capitalizeFirst

theorem braces_typeName (h : braces name = []) : braces (typeName name) = [] :=
  braces_ofList (typeNameChars_free (braces_eq_nil.mp h))

end Ident

namespace Spelling
open VFromC.Text

variable {s t : List Char}

theorem stripQualifiers_free (h : BraceFree s) : BraceFree (stripQualifiers s).text := by
  have const {t : List Char} (ht : BraceFree t) : BraceFree (dropFinalConst t) := by
    unfold dropFinalConst
    split
    · split
      · exact ht.sublist (beforeEnd?_sublist ‹_›)
      · exact ht
    · exact ht
  refine (const ?_).sublist (trim_sublist _)
  exact BraceFree.replaceAll (((h.replaceAll braceFree_nil).replaceAll braceFree_nil).replaceAll
    braceFree_nil) braceFree_nil

theorem opaquePointer?_free (h : BraceFree s) (ht : opaquePointer? s = some t) : BraceFree t := by
  unfold opaquePointer? at ht
  iterate 3
    split at ht
    · cases ht
      decide
  obtain ⟨size, hsize, rfl⟩ := Option.map_eq_some_iff.mp ht
  obtain ⟨rest, hr, he⟩ := Option.bind_eq_some_iff.mp hsize
  have free : BraceFree size := (h.sublist (afterStart?_sublist hr)).sublist (beforeEnd?_sublist he)
  exact .cons rfl (free.append (by decide))

theorem enumName?_free (h : BraceFree s) (ht : enumName? s = some t) : BraceFree t := by
  obtain ⟨name, hn, he⟩ := Option.bind_eq_some_iff.mp ht
  split at he
  · cases he
  · cases he
    exact ((h.sublist (afterStart?_sublist hn)).sublist (trim_sublist _)).capitalizeFirst

section Signatures

theorem splitParams_free {depth : Nat} {piece : List Char} (hp : BraceFree piece)
    (h : BraceFree s) : ∀ p ∈ splitParams depth piece s, BraceFree p := by
  have trimmed {piece : List Char} (hp : BraceFree piece) : BraceFree (trim piece.reverse) :=
    BraceFree.sublist (fun c hc => hp c (List.mem_reverse.mp hc)) (trim_sublist _)
  induction s generalizing depth piece with
  | nil => exact List.forall_mem_singleton.mpr (trimmed hp)
  | cons c s ih =>
      obtain ⟨hc, hs⟩ := List.forall_mem_cons.mp h
      rw [splitParams]
      split
      · exact List.forall_mem_cons.mpr ⟨trimmed hp, ih braceFree_nil hs⟩
      · exact ih (.cons hc hp) hs

theorem bracketed_free {before rest : List Char} (h : BraceFree rest) :
    BraceFree (bracketed before rest) := by
  unfold bracketed
  split
  · exact (h.of_cut? (append_of_cutLast? ‹_›)).1
  · split
    · exact braceFree_nil
    · exact h

theorem ofText?_free {sig : Signature} (h : BraceFree s) (hs : Signature.ofText? s = some sig) :
    BraceFree sig.result ∧ ∀ p ∈ sig.params, BraceFree p := by
  obtain ⟨⟨before, rest⟩, hc, rfl⟩ := Option.map_eq_some_iff.mp hs
  obtain ⟨hb, hr⟩ := (h.removeFirst _).of_cut? (append_of_cut? hc)
  refine ⟨hb, fun p hp => ?_⟩
  simp only [paramTexts] at hp
  split at hp
  · cases hp
  · exact splitParams_free braceFree_nil (bracketed_free hr) p hp

theorem joined_free {sep : List Char} {texts : List (List Char)} (hs : BraceFree sep)
    (h : ∀ p ∈ texts, BraceFree p) : BraceFree (joined sep texts) := by
  induction texts with
  | nil => exact braceFree_nil
  | cons p texts ih =>
      obtain ⟨hp, htexts⟩ := List.forall_mem_cons.mp h
      cases texts with
      | nil => exact hp
      | cons q texts => exact (hp.append hs).append (ih htexts)

theorem signatureText_free {params : List (List Char)} {result : List Char}
    (hp : ∀ p ∈ params, BraceFree p) (hr : BraceFree result) :
    BraceFree (signatureText params result) := by
  have comma : BraceFree ", ".toList := by decide
  have start : BraceFree "func (".toList := by decide
  have stop : BraceFree ")".toList := by decide
  have head := (start.append (joined_free comma hp)).append stop
  unfold signatureText
  dsimp only
  split
  · exact head
  · exact head.append (.cons rfl hr)

end Signatures

section Declarators

theorem splitDimensions_free (h : BraceFree s) :
    BraceFree (splitDimensions s).1 ∧ BraceFree (splitDimensions s).2 := by
  unfold splitDimensions
  split
  · refine ⟨?_, h.sublist (List.dropWhile_sublist _)⟩
    exact (h.sublist (List.takeWhile_sublist _)).sublist (dropEndWhile_sublist _ _)
  · exact ⟨h, braceFree_nil⟩

theorem leadingDimensions?_free {dims rest : List Char} (h : BraceFree s)
    (hd : leadingDimensions? s = some (dims, rest)) : BraceFree dims ∧ BraceFree rest := by
  unfold leadingDimensions? at hd
  split at hd
  · rw [← leadingBrackets?_append hd] at h
    exact ⟨h.sublist (List.sublist_append_left ..), h.sublist (List.sublist_append_right ..)⟩
  · cases hd

theorem stripNamespace_free (h : BraceFree s) : BraceFree (stripNamespace s) := by
  unfold stripNamespace
  split
  · exact (h.of_cut? (append_of_cutLast? ‹_›)).2
  · split
    · exact h
    · split
      · exact (h.of_cut? (append_of_cutLast? ‹_›)).2
      · exact h

theorem stripRecordWords_free (h : BraceFree s) : BraceFree (stripRecordWords s) := by
  have bare : BraceFree (replaceAll "union ".toList [] (replaceAll "struct ".toList [] s)) :=
    (h.replaceAll braceFree_nil).replaceAll braceFree_nil
  unfold stripRecordWords
  dsimp only
  cases hr : afterStart? "signed ".toList
      (replaceAll "union ".toList [] (replaceAll "struct ".toList [] s)) with
  | none => exact bare
  | some rest => exact bare.sublist (afterStart?_sublist hr)

theorem splitStars_free (h : BraceFree s) : BraceFree (splitStars s).1 :=
  BraceFree.sublist ((h.sublist (dropEndWhile_sublist _ _)).sublist (dropEndWhile_sublist _ _))
    (trim_sublist _)

theorem splitReference_free (h : BraceFree s) : BraceFree (splitReference s).1 := by
  unfold splitReference
  split
  · split
    · exact (h.sublist (beforeEnd?_sublist ‹_›)).sublist (dropEndWhile_sublist _ _)
    · exact h
  · exact h

theorem ofText_free (h : BraceFree s) :
    BraceFree (Declarator.ofText s).base ∧ BraceFree (Declarator.ofText s).dims := by
  obtain ⟨front, dims⟩ := splitDimensions_free h
  rw [Declarator.base_ofText]
  exact ⟨splitReference_free (splitStars_free (stripRecordWords_free (stripNamespace_free front))),
    dims⟩

theorem declaredText_free {dims base : List Char} (hd : BraceFree dims) (hb : BraceFree base)
    (stars : Nat) : BraceFree (declaredText dims stars base) := by
  unfold declaredText
  split
  · exact (hd.append (braceFree_replicate rfl _)).append (by decide)
  · exact (hd.append (braceFree_replicate rfl _)).append hb

theorem scalarName_free (h : BraceFree s) : BraceFree (scalarName s) := by
  have table : ∀ entry ∈ primitiveTable, BraceFree entry.2.toList := by
    decide
  unfold scalarName
  split
  · rename_i hn
    exact table _ (mem_of_lookup hn)
  · exact Ident.typeNameChars_free h

end Declarators

mutual

theorem typeText_free (s : List Char) (h : BraceFree s) : BraceFree (typeText s) := by
  have free := stripQualifiers_free (h.sublist (trim_sublist s))
  have bound := Nat.le_trans (length_stripQualifiers_le (trim s)) (length_trim_le s)
  rw [typeText]
  split
  · decide
  · split
    · exact opaquePointer?_free free ‹_›
    · exact unqualifiedText_free _ free
termination_by 4 * s.length + 3
decreasing_by omega

theorem unqualifiedText_free (s : List Char) (h : BraceFree s) : BraceFree (unqualifiedText s) := by
  have free : BraceFree (trim s) := h.sublist (trim_sublist s)
  have bound := length_trim_le s
  rw [unqualifiedText]
  split
  · exact free
  · split
    · rename_i rest hr
      have shorter := length_of_afterStart? hr
      exact .cons rfl (unqualifiedText_free rest (free.sublist (afterStart?_sublist hr)))
    · split
      · rename_i dims elem hd
        obtain ⟨hdims, helem⟩ := leadingDimensions?_free free hd
        have shorter := length_lt_of_leadingDimensions? hd
        exact hdims.append (unqualifiedText_free elem helem)
      · split
        · exact enumName?_free free ‹_›
        · split
          · exact functionText_free (trim s) free
          · obtain ⟨base, dims⟩ := ofText_free free
            have shorter := Declarator.length_base_le (trim s)
            exact declaredText_free dims (baseText_free _ base) _
termination_by 4 * s.length + 2
decreasing_by
  · have sign : "&".toList.length = 1 := rfl
    omega
  all_goals omega

theorem functionText_free (s : List Char) (h : BraceFree s) : BraceFree (functionText s) := by
  rw [functionText_eq]
  split
  · exact h
  · rename_i sig hs
    obtain ⟨result, params⟩ := ofText?_free h hs
    have shorter := Signature.length_result_lt hs
    refine signatureText_free (fun text ht => ?_) (typeText_free sig.result result)
    obtain ⟨p, hp, rfl⟩ := List.mem_map.mp ht
    have shorter := Signature.length_param_lt hs hp
    split
    · exact params p hp
    · exact typeText_free p (params p hp)
termination_by 4 * s.length + 1
decreasing_by all_goals omega

theorem baseText_free (s : List Char) (h : BraceFree s) : BraceFree (baseText s) := by
  rw [baseText]
  split
  · exact h
  · split
    · rename_i elem he
      obtain ⟨rest, hr, hb⟩ := Option.bind_eq_some_iff.mp he
      have free : BraceFree elem :=
        (h.sublist (afterStart?_sublist hr)).sublist (beforeEnd?_sublist hb)
      have shorter := length_lt_of_vectorElement? he
      exact .cons rfl (.cons rfl (typeText_free elem free))
    · exact scalarName_free h
termination_by 4 * s.length
decreasing_by omega

end

theorem braces_typeOf {c : String} (h : braces c = []) : braces (typeOf c) = [] := by
  unfold typeOf convert
  dsimp only
  split
  · rfl
  · exact braces_ofList (typeText_free _ ((braces_eq_nil.mp h).sublist (trim_sublist _)))

/-- An empty record is written with a pair of braces. -/
theorem zeroValue_leads {c canonical : String} (h : braces c = []) (i : Nat) :
    Leads i i (braces (zeroValue (convert c) c canonical)) := by
  have name : braces (convert c).name = [] := braces_typeOf h
  have empty : Leads i i (braces ((convert c).name ++ "\x7b\x7d")) := by
    rw [braces_append, name]
    exact leads_open.append leads_close
  have number : Leads i i (braces ((convert c).name ++ "(0)")) := by
    rw [braces_append, name]
    exact leads_nil
  unfold zeroValue
  split
  · exact empty
  · split
    · exact number
    iterate 5
      split
      · exact leads_nil
    split
    · have pointer : BraceFree
          ((afterStart? "&".toList (convert c).name.toList).getD (convert c).name.toList) := by
        cases hr : afterStart? "&".toList (convert c).name.toList with
        | none => exact braces_eq_nil.mp name
        | some rest => exact (braces_eq_nil.mp name).sublist (afterStart?_sublist hr)
      rw [braces_append, braces_append, braces_ofList pointer]
      exact leads_nil
    · exact empty

end Spelling

end VFromC
