import BlockLang.Proofs.Grammar.Acceptance
import BlockLang.Proofs.Grammar.Comparison

/-! # Lookahead — no more is looked at than the next token

  A parser with more tokens behind the ones of another does what the other
  does, as long as the other has tokens.  So an error stays what it is
  when tokens are added at the end, unless it is the error of having no
  tokens left. -/

namespace BlockLang

open Grammar

/-- The error of having no tokens left. -/
def Error.IsEnd (error : Error) : Prop := ∃ expected, error.fault = .unexpectedEnd expected

namespace Parser

variable {p q : Parser} {limit : Nat} {us : List Token}

/-- The second run has more tokens behind those of the first one.  Where these
    end, the first run says nothing, except that too many levels are open. -/
def longer (limit : Nat) (us : List Token) : Comparison where
  states p q := q = { p with rest := p.rest ++ us } ∧ q.reached = p.reached ∧ p.limit = limit
  errors e p e' _ := e'.fault = e.fault ∧
    (e'.position = e.position ∨ e.fault = .nestingTooDeep limit ∧ p.rest = [])
  extra := us.length
  waives e _ := e.IsEnd
  rules_eq h := by rw [h.1]
  nextId_eq h := by rw [h.1]
  reached_eq h := h.2.1
  read := by
    rintro p q token rest ⟨rfl, -, hlimit⟩ hrest
    exact ⟨rest ++ us, by rw [hrest, List.cons_append], rfl, rfl, hlimit⟩
  length_rest h := by rw [h.1, List.length_append]
  draw := by
    rintro p q ⟨rfl, hreached⟩
    exact ⟨rfl, hreached⟩
  raise error _ := ⟨rfl, .inl rfl⟩
  waives_unexpected := by
    intro p expected _ hrest
    exact ⟨expected, by rw [unexpected, current?, hrest]; rfl⟩

theorem longer_depth (h : (longer limit us).states p q) (depth : Nat) :
    (longer limit us).states { p with depth := depth } { q with depth := depth } := by
  obtain ⟨rfl, hreached⟩ := h
  exact ⟨rfl, hreached⟩

/-- Opening too many levels is found in both runs, at the same token if there
    is one. -/
theorem tracks_tooDeep {α : Type} (h : (longer limit us).states p q) :
    Tracks (longer limit us) (fail tooDeep p : EStateM.Result Error Parser α) (fail tooDeep q) := by
  have hlimit : q.limit = p.limit := by rw [h.1]
  refine .error ⟨by simp only [tooDeep, hlimit], ?_⟩
  rcases (longer limit us).current?_eq h with hcurrent | ⟨-, hrest⟩
  · exact .inl ((longer limit us).here_eq h hcurrent)
  · exact .inr ⟨by rw [tooDeep, h.2.2], hrest⟩

/-- The level that both runs open is within the limit for both. -/
theorem tracks_enter {α : Type} {x y : Parse α} (hp : p.depth < p.limit)
    (h : (longer limit us).states p q)
    (hxy : Tracks (longer limit us) (x { p with depth := p.depth + 1 })
      (y { q with depth := p.depth + 1 })) :
    Tracks (longer limit us) ((do enter; let a ← x; leave; return a : Parse α) p)
      ((do enter; let a ← y; leave; return a : Parse α) q) := by
  have hdepth : q.depth = p.depth := by rw [h.1]
  have hlimit : q.limit = p.limit := by rw [h.1]
  refine .enter_bind hp (by rwa [hdepth, hlimit]) (fun {r s} hrs => ?_) (by rwa [hdepth])
  have hdepth' : s.depth = r.depth := by rw [hrs.1]
  rw [hdepth']
  exact longer_depth hrs _

theorem follows_expr_longer (room : Nat) (nt : Nonterminal) :
    Follows (longer limit us) room (expr room nt.power) (expr room nt.power) := by
  -- On the room.
  induction room generalizing nt with
  | zero => exact fun p q _ h => tracks_tooDeep h
  | succ room ih =>
    intro p q hp h
    have hlt : p.depth < p.limit := by have := hp.depth; omega
    rw [expr]
    exact tracks_enter hlt h
      (Follows.level (reads_expr room) ih nt _ _ hp.enterLevel (longer_depth h _))

theorem follows_blockWithin_longer (room : Nat) :
    Follows (longer limit us) room (blockWithin room) (blockWithin room) := by
  induction room with
  | zero => exact fun p q _ h => tracks_tooDeep h
  | succ room ih =>
    intro p q hp h
    have hlt : p.depth < p.limit := by have := hp.depth; omega
    rw [blockWithin_succ]
    refine tracks_enter hlt h ?_
    rw [get_bind, get_bind]
    exact .statements (follows_expr_longer room .expr) (readsBlocks_blockWithin room) ih
      hp.enterLevel (longer_depth h _) (Nat.le_refl _) (Nat.le_refl _)

/-- Reading a program with more tokens behind it. -/
theorem tracks_program {ts : List Token} (hts : ts ≠ []) (limit : Nat) (us : List Token) :
    Tracks (longer limit us) (program (start .standard limit ts))
      (program (start .standard limit (ts ++ us))) := by
  obtain ⟨token, ts, rfl⟩ := List.exists_cons_of_ne_nil hts
  have hbegun : (longer limit us).states (begun limit (token :: ts))
      (begun limit (token :: ts ++ us)) := ⟨rfl, rfl, rfl⟩
  rw [program_start, program_start]
  refine .bind (follows_blockWithin_longer limit _ _ (ready_begun limit _) hbegun)
    (fun body p q _ _ h => ?_) fun body p r _ hextra hrest => ?_
  · rw [get_bind, get_bind]
    rcases (longer limit us).current?_eq h with hcurrent | ⟨hextra, hrest⟩
    · have hempty : q.rest.isEmpty = p.rest.isEmpty := by
        rw [Bool.eq_iff_iff, List.isEmpty_iff, List.isEmpty_iff, ← List.head?_eq_none_iff,
          ← List.head?_eq_none_iff, show q.rest.head? = p.rest.head? from hcurrent]
      rw [hempty, h.2.1]
      split
      · exact .ok h
      · exact .unexpected h _
    · rw [if_pos (List.isEmpty_iff.mpr hrest)]
      exact .spent hextra hrest
  · rw [get_bind, if_pos (List.isEmpty_iff.mpr hrest)]
    exact .spent hextra hrest

/-- Without tokens there is nothing wrong. -/
theorem program_nil (hlimit : 0 < limit) :
    ∃ prog q, program (start .standard limit []) = .ok prog q := by
  obtain ⟨limit, rfl⟩ := Nat.exists_eq_add_one.mpr hlimit
  exact ⟨_, _, rfl⟩

/-- An error that is no end of the tokens stays when tokens are added, and
    stays where it is.  Only the error of opening too many levels moves to the
    first token added when no token was left. -/
theorem exists_program_append_eq_error {ts : List Token} (hlimit : 0 < limit) {error : Error}
    (h : program (start .standard limit ts) = .error error q) (hend : ¬ error.IsEnd)
    (us : List Token) :
    ∃ error' q', program (start .standard limit (ts ++ us)) = .error error' q' ∧
      error'.fault = error.fault ∧ (error'.position = error.position ∨
        error.fault = .nestingTooDeep limit ∧ q.rest = []) := by
  have hts : ts ≠ [] := by
    rintro rfl
    obtain ⟨prog, q', hprog⟩ := program_nil hlimit
    rw [hprog] at h
    cases h
  have htracks := tracks_program hts limit us
  rw [h] at htracks
  generalize program (start .standard limit (ts ++ us)) = r at htracks
  cases htracks with
  | error herrors => exact ⟨_, _, rfl, herrors⟩
  | waived hwaives => exact absurd hwaives hend

end Parser

end BlockLang
