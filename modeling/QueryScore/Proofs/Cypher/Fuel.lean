/-
# QueryScore.Proofs.Cypher.Fuel -- the fuel for a query lasts

Before its first character a rule descends through the rules it may begin with: an expression
through all layers down to an atom, a clause only to its keyword. The heights below rank the rules
by that descent, and `callsPerCharacter` is above all ranks. So a text is never rejected because
the interpreter gave up (`run_fuelFor_answers`): rejection is always a mismatch.
-/

import QueryScore.Cypher.Parse
import QueryScore.Proofs.Peg.Fuel
import QueryScore.Proofs.Peg.Node

namespace QueryScore.Cypher

/-- The number of layers that a rule descends before its first character. -/
def Rule.height : Rule → Nat
  | .keyword _ => 1
  | .labelName | .relTypeName | .functionName | .numberLiteral | .integerLiteral | .stringLiteral
    | .parameter | .variable | .propertyKey | .parenGroup | .leftArrow | .rightArrow
    | .nodePattern => 2
  | .atom | .patternElement | .properties | .singleQuery => 4
  | .postfixExpression | .patternPart | .query => 5
  | .unaryExpression | .pattern => 6
  | .powerExpression => 7
  | .multiplicativeExpression => 8
  | .additiveExpression => 9
  | .predicateExpression => 10
  | .comparisonExpression => 11
  | .notExpression => 12
  | .andExpression => 13
  | .xorExpression => 14
  | .orExpression => 15
  | .expression => 16
  | .projectionItem | .sortItem => 17
  | .projectionItems => 18
  | .projectionBody => 19
  | _ => 3

/-- The ranks of the rules. Only the end of the text takes no character. -/
def ranking : Ranking Rule where
  rank r := 20 * r.height
  mayRest
    | .keyword w => w.toList.isEmpty
    | r => r == .endOfText

/-- The calls for filler before its first character. -/
def fillerCalls : Nat := 7

theorem need_keyword_le (atomic : Bool) (w : String) :
    ranking.need (Ranking.pause fillerCalls atomic) (Rule.body (.keyword w)) ≤ 20 := by
  have hword (gap : Nat) : ranking.need gap (.word w.toList) = 1 := rfl
  rw [Rule.body, Ranking.need, hword]
  clear hword
  generalize ranking.rests (.word w.toList) = rests
  revert atomic rests
  decide

theorem ranking_bounds : ranking.Bounds grammar fillerCalls callsPerCharacter where
  rule atomic r := by
    show ranking.need (Ranking.pause fillerCalls atomic) r.body ≤ 20 * r.height
    cases r with
    | keyword w => exact need_keyword_le atomic w
    | _ => revert atomic; decide +kernel
  rests r := by
    show ranking.rests r.body = true → ranking.mayRest r = true
    cases r with
    | keyword w =>
      intro h
      exact ((Bool.and_eq_true _ _).mp h).1
    | _ => decide
  body atomic r := by
    show ranking.fits (Ranking.pause fillerCalls atomic) callsPerCharacter r.body = true
    cases r with
    | keyword w =>
      have hword (gap : Nat) : ranking.fits gap callsPerCharacter (.word w.toList) = true := rfl
      rw [Rule.body, Ranking.fits, hword]
      clear hword
      revert atomic
      decide
    | _ => revert atomic; decide
  filler := by decide
  fits_filler := by decide

/-- **The interpreter answers for every text.** -/
theorem run_fuelFor_answers (source : List Char) :
    (grammar.run (fuelFor source) false (.rule .query) ⟨0, source⟩).Answers := by
  refine Ranking.run_answers ranking_bounds rfl ?_
  have hneed : ranking.need (Ranking.pause fillerCalls false) (.rule Rule.query) ≤ callsPerCharacter := by
    decide
  show callsPerCharacter * source.length + _ ≤ callsPerCharacter * (source.length + 10)
  rw [Nat.mul_add]
  omega

/-- A text that is not too deep and has no tree does not match. -/
theorem run_of_rejected {source : List Char} (h : parse source = .error .rejected) :
    grammar.run (fuelFor source) false (.rule .query) ⟨0, source⟩ = .failed := by
  have hanswers := run_fuelFor_answers source
  rw [parse] at h
  split at h
  · cases h
  cases hrun : grammar.run (fuelFor source) false (.rule .query) ⟨0, source⟩ with
  | failed => rfl
  | exhausted =>
    rw [hrun] at hanswers
    exact hanswers.elim
  | matched later nodes =>
    have hgives : grammar.Gives false (.once (.rule .query)) [] source later nodes :=
      (grammar.runsRead _).run hrun
    obtain ⟨cs, after, rfl, rfl, hread⟩ := hgives
    obtain ⟨parts, rfl⟩ := QueryScore.Grammar.exists_node (by decide) hread
    rw [hrun] at h
    cases h

end QueryScore.Cypher
