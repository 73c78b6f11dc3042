import BlockLang.Proofs.Token.Cutting
import BlockLang.Proofs.Token.Shift

/-! # Slices — tokens in a row have a text of their own

  What stands in a source from the start of one token to the end of another is
  cut in the same places when it stands alone: a piece that is the longest one
  in front of more text is also the longest one in front of less.  So the slice
  has the tokens in between, and they are as much further to the front as the
  slice starts behind the start of the source. -/

namespace BlockLang

variable {file source : String} {offset : Nat} {text : List Char} {token : Token}
  {tokens us vs : List Token}

/-! ### Parts of a cut -/

/-- A source that is cut may end behind any of its tokens. -/
theorem Cut.exists_append (h : Cut file offset text (us ++ vs)) :
    ∃ front back, text = front ++ back ∧ Cut file offset front us ∧
      Cut file (offset + byteSize front) back vs ∧ (us = [] → front = []) ∧
      ∀ token, us.getLast? = some token →
        token.span.stop.offset.toNat = offset + byteSize front := by
  generalize htokens : us ++ vs = tokens at h
  induction h generalizing us with
  | @done offset =>
    obtain ⟨rfl, rfl⟩ := List.append_eq_nil_iff.mp htokens
    exact ⟨[], [], rfl, .done, .done, fun _ => rfl, nofun⟩
  | @gap offset run rest tokens hrun hall hhead hcut ih =>
    cases us with
    | nil =>
      subst htokens
      exact ⟨[], run ++ rest, rfl, .done, .gap hrun hall hhead hcut, fun _ => rfl, nofun⟩
    | cons token us =>
      obtain ⟨front, back, rfl, hfront, hback, -, hlast⟩ := ih htokens
      rw [Nat.add_assoc, ← byteSize_append] at hback hlast
      refine ⟨run ++ front, back, (List.append_assoc _ _ _).symm, ?_, hback, nofun, hlast⟩
      refine .gap hrun hall (fun c hc => hhead c ?_) hfront
      rw [List.head?_append, hc]
      rfl
  | @piece offset text kind lexeme span rest tokens hpiece hcovers hcut ih =>
    cases us with
    | nil =>
      subst htokens
      exact ⟨[], text ++ rest, rfl, .done, .piece hpiece hcovers hcut, fun _ => rfl, nofun⟩
    | cons token us =>
      obtain ⟨rfl, hmore⟩ := List.cons.inj htokens
      obtain ⟨front, back, rfl, hfront, hback, hempty, hlast⟩ := ih hmore
      rw [Nat.add_assoc, ← byteSize_append] at hback hlast
      refine ⟨text ++ front, back, (List.append_assoc _ _ _).symm, ?_, hback, nofun, ?_⟩
      · exact .piece hpiece.of_append hcovers hfront
      · intro token htoken
        cases us with
        | nil =>
          -- The last token is the first one, and nothing is cut off behind it.
          cases htoken
          rw [hempty rfl, List.append_nil]
          exact hcovers.stop_offset
        | cons token' us => exact hlast token htoken

/-- What stands in front of the first token may be left out. -/
theorem Cut.exists_start (h : Cut file offset text (token :: tokens)) :
    ∃ run rest, text = run ++ rest ∧ Cut file (offset + byteSize run) rest (token :: tokens) ∧
      token.span.start.offset.toNat = offset + byteSize run := by
  generalize htokens : token :: tokens = row at h
  induction h with
  | done => cases htokens
  | @gap offset run rest row hrun hall hhead hcut ih =>
    obtain ⟨run', rest, rfl, hrest, hstart⟩ := ih htokens
    rw [Nat.add_assoc, ← byteSize_append] at hrest hstart
    exact ⟨run ++ run', rest, (List.append_assoc _ _ _).symm, hrest, hstart⟩
  | @piece offset text kind lexeme span rest row hpiece hcovers hcut ih =>
    cases htokens
    exact ⟨[], text ++ rest, rfl, .piece hpiece hcovers hcut, hcovers.start_offset⟩

/-! ### Sources -/

/-- The text is what the span covers of the source. -/
def Span.CutsOut (span : Span) (source text : String) : Prop :=
  ∃ front back, source = front ++ text ++ back ∧
    front.utf8ByteSize = span.start.offset.toNat ∧
    (front ++ text).utf8ByteSize = span.stop.offset.toNat

/-- Tokens in a row are those of the text from the first to the last of them,
    further on by as much as this text is. -/
theorem tokenize_slice (hsize : source.utf8ByteSize < 2 ^ 32)
    (h : tokenize source file = .ok tokens) (hus : us <:+: tokens) {first last : Token}
    (hfirst : us.head? = some first) (hlast : us.getLast? = some last) :
    ∃ text vs, (Span.mk first.span.start last.span.stop).CutsOut source text ∧
      tokenize text file = .ok vs ∧ us = vs.map (Token.shift first.span.start.offset) := by
  obtain ⟨before, behind, rfl⟩ := hus
  obtain ⟨more, rfl⟩ : ∃ more, us = first :: more := by
    cases us with
    | nil => cases hfirst
    | cons token more =>
      cases hfirst
      exact ⟨more, rfl⟩
  -- The source ends behind the last token, and starts at the first one.
  rw [tokenize_eq_ok_iff hsize] at h
  obtain ⟨_, back, htext, hwhole, -, -, hstop⟩ := h.exists_append
  obtain ⟨front, _, rfl, -, hrest, -⟩ := hwhole.exists_append
  obtain ⟨run, slice, rfl, hslice, hstart⟩ := hrest.exists_start
  replace hstop := hstop last (by rw [List.getLast?_append, hlast]; rfl)
  rw [Nat.zero_add] at hstop hslice hstart
  have hbytes : byteSize source.toList < 2 ^ 32 := by rwa [byteSize_toList]
  rw [htext] at hbytes
  simp only [byteSize_append] at hbytes hstop
  have hscan : tokensFrom file [] (byteSize front + byteSize run) slice = .ok (first :: more) :=
    (tokensFrom_eq_ok_iff (by omega)).mpr ⟨first :: more, rfl, hslice⟩
  rw [tokensFrom_eq_shiftScan, ← hstart, UInt32.ofNat_toNat] at hscan
  cases hvs : tokensFrom file [] 0 slice with
  | error error =>
    rw [hvs] at hscan
    cases hscan
  | ok vs =>
    rw [hvs] at hscan
    refine ⟨String.ofList slice, vs, ⟨String.ofList (front ++ run), String.ofList back, ?_, ?_, ?_⟩,
      ?_, (Except.ok.inj hscan).symm⟩
    · rw [← String.ofList_append, ← String.ofList_append, List.append_assoc front, ← htext,
        String.ofList_toList]
    · rw [utf8ByteSize_ofList, byteSize_append, hstart]
    · rw [← String.ofList_append, utf8ByteSize_ofList, byteSize_append, byteSize_append, hstop]
      omega
    · rw [tokenize, String.toList_ofList, hvs]

end BlockLang
