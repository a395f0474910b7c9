/-
# QueryScore.Proofs.Cypher.Reserved -- which identifiers name a variable or a function

The words that are reserved are looked for in the order of a list, and the look-ahead does not come back
to a second one that begins at the same place. Since no word stands before one that it begins, the
first word that is found is all of a reserved identifier or only the beginning of a longer one, and so an
identifier is taken, all of it, exactly if it spells no reserved word (`takesUnreserved_of_reading`). That
a rule takes an identifier is proved from its refusal: runs answer with enough fuel, so what is not
refused is matched (`exists_matched_reading`), and what is matched of a name reaches to its end
(`eq_of_reads_symbolicName`).
-/

import QueryScore.Proofs.Cypher.Condition
import QueryScore.Proofs.Cypher.Fuel
import QueryScore.Proofs.Cypher.Word
import QueryScore.Proofs.Peg.Answer

namespace QueryScore.Cypher

open Text Grammar Peg

variable {w xs ys before after source : List Char} {nodes : List (Tree Rule)} {r : Rule}

/-! ## Identifiers -/

/-- A letter or an underscore, then letters, digits and underscores. -/
def isIdentifier : List Char → Bool
  | [] => false
  | c :: cs => (c.isAlpha || c == '_') && cs.all isNameChar

instance (cs : List Char) : Decidable (Unreserved cs) :=
  inferInstanceAs (Decidable (∀ w ∈ reservedWords, cs.map asciiLower ≠ spelling w))

theorem isNameChar_of_isIdentifier (hw : isIdentifier w = true) : ∀ c ∈ w, isNameChar c = true := by
  cases w with
  | nil => cases hw
  | cons c cs =>
    simp only [isIdentifier, Bool.and_eq_true, Bool.or_eq_true, List.all_eq_true] at hw
    intro d hd
    rcases List.mem_cons.mp hd with rfl | hd
    · rcases hw.1 with halpha | hunderscore
      · exact isNameChar_of_isAlpha halpha
      · simp [isNameChar, hunderscore]
    · exact hw.2 d hd

/-- A stretch of name characters at the front of a text ends where the name there ends. -/
theorem eq_of_name_append (hsplit : w ++ after = xs ++ ys) (hw : ∀ c ∈ w, isNameChar c = true)
    (hafter : ∀ c ∈ after.head?, isNameChar c = false) (hxs : ∀ c ∈ xs, isNameChar c = true)
    (hys : ∀ c ∈ ys.head?, isNameChar c = false) : xs = w ∧ ys = after := by
  have htake {name rest : List Char} (hname : ∀ c ∈ name, isNameChar c = true)
      (hrest : ∀ c ∈ rest.head?, isNameChar c = false) : (name ++ rest).takeWhile isNameChar = name := by
    rw [List.takeWhile_append_of_pos hname]
    cases rest with
    | nil => simp
    | cons c rest => rw [List.takeWhile_cons, hrest c rfl, if_neg (by simp), List.append_nil]
  have hall := htake hw hafter
  rw [hsplit, htake hxs hys] at hall
  exact ⟨hall, List.append_cancel_left (hall ▸ hsplit).symm⟩

/-! ## What is read and what is refused -/

/-- What is not refused is read: with enough fuel a run answers. -/
theorem exists_matched_reading {atomic : Bool} {e : Peg Rule}
    (hfits : ranking.fits (Ranking.pause fillerCalls atomic) callsPerCharacter e = true)
    (h : ¬ grammar.Refuses atomic e before after) : ∃ cs rest nodes, after = cs ++ rest ∧
      grammar.Matches atomic e ⟨before.length, after⟩ ⟨(before ++ cs).length, rest⟩ nodes ∧
      grammar.Reads atomic (.once e) before cs rest nodes := by
  obtain ⟨fuel, hanswers⟩ : ∃ fuel, (grammar.run fuel atomic e ⟨before.length, after⟩).Answers :=
    ⟨_, Ranking.run_answers ranking_bounds hfits (Nat.le_refl _)⟩
  cases hrun : grammar.run fuel atomic e ⟨before.length, after⟩ with
  | matched later nodes =>
    obtain ⟨cs, rest, hsplit, rfl, hread⟩ := (grammar.runsRead fuel).run hrun
    exact ⟨cs, rest, nodes, hsplit, ⟨fuel, hrun⟩, hread⟩
  | failed => exact absurd ⟨fuel, hrun⟩ h
  | exhausted =>
    rw [hrun] at hanswers
    exact hanswers.elim

/-- A name that is read at the front of an identifier is all of it. -/
theorem eq_of_reads_symbolicName (hw : isIdentifier w = true) (hafter : ∀ c ∈ after.head?, isNameChar c = false)
    (hsplit : w ++ after = xs ++ ys) (h : grammar.Reads true (.once symbolicName) before xs ys nodes) :
    xs = w ∧ ys = after := by
  rcases reads_symbolicName h with ⟨hplain, hys⟩ | ⟨body, rfl, -⟩
  · exact eq_of_name_append hsplit (isNameChar_of_isIdentifier hw) hafter hplain.chars hys
  · cases w with
    | nil => cases hw
    | cons c cs =>
      obtain ⟨rfl, -⟩ := List.cons.inj hsplit
      simp [isIdentifier] at hw

theorem not_refuses_symbolicName (hw : isIdentifier w = true) :
    ¬ grammar.Refuses true symbolicName before (w ++ after) := by
  intro h
  obtain ⟨hplain, -⟩ := h.alt
  rcases hplain.seq with hfirst | ⟨_, _, _, -, -, hmore⟩
  · obtain ⟨hletter, hunderscore⟩ := hfirst.alt
    cases w with
    | nil => cases hw
    | cons c cs =>
      simp only [isIdentifier, Bool.and_eq_true, Bool.or_eq_true, beq_iff_eq] at hw
      rcases hw.1 with halpha | rfl
      · rw [hletter.letter c rfl] at halpha
        cases halpha
      · exact hunderscore.text ⟨cs ++ after, rfl⟩
  · exact not_refuses_many hmore

/-- **The look-ahead refuses reserved words only**: no character of a name follows the word that it has
found, so that word is all of the identifier. -/
theorem not_refuses_unreserved (hw : isIdentifier w = true) (hafter : ∀ c ∈ after.head?, isNameChar c = false)
    (hfree : Unreserved w) : ¬ grammar.Refuses true unreserved before (w ++ after) := by
  intro h
  obtain ⟨cs, rest, _, hsplit, hread⟩ := h.absent
  obtain ⟨xs, ys, _, _, rfl, -, hword, hend⟩ := hread.of_tight_seq
  obtain ⟨rfl, -, hno⟩ := hend.of_absent
  obtain ⟨earlier, e, later, hlist, -, hword⟩ := exists_of_reads_alts (by simp [reservedWords]) hword
  obtain ⟨v, hv, rfl⟩ : ∃ v ∈ reservedWords, .word v.toList = e := by
    have he : e ∈ reservedWords.map fun word => .word word.toList := by rw [hlist]; simp
    exact List.mem_map.mp he
  obtain ⟨hspell, -⟩ := hword.of_word
  have halpha := isAlpha_of_mem hspell (isAlpha_of_mem_reservedWords v hv).2
  rw [List.append_nil] at hsplit
  obtain ⟨rfl, -⟩ := eq_of_name_append hsplit (isNameChar_of_isIdentifier hw) hafter
    (fun c hc => isNameChar_of_isAlpha (halpha c hc)) (not_isNameChar_of_refuses hno)
  exact hfree v hv hspell

/-! ## The two rules -/

/-- **`TakesUnreserved r before w after`** -- between `before` and `after` the rule matches all of `w` and
leaves its node, if `w` is no reserved word, and nothing if it is one. -/
structure TakesUnreserved (r : Rule) (before w after : List Char) : Prop where
  matched : grammar.Matches false (.rule r) ⟨before.length, w ++ after⟩ ⟨(before ++ w).length, after⟩
    [.node r before.length w []] ↔ Unreserved w
  refused : grammar.Refuses false (.rule r) before (w ++ after) ↔ ¬ Unreserved w

/-- A rule takes the unreserved identifiers if it refuses none of them, and reads nothing else. -/
theorem takesUnreserved_of_reading (hkind : grammar.kind r = .atomic)
    (hfits : ranking.fits (Ranking.pause fillerCalls false) callsPerCharacter (.rule r) = true)
    (hfree : Unreserved w → ¬ grammar.Refuses true (grammar.body r) before (w ++ after))
    (hread : ∀ xs ys nodes, w ++ after = xs ++ ys →
      grammar.Reads true (.once (grammar.body r)) before xs ys nodes → Unreserved w ∧ xs = w ∧ ys = after) :
    TakesUnreserved r before w after := by
  have hnot (h : Unreserved w) : ¬ grammar.Refuses false (.rule r) before (w ++ after) := by
    intro hno
    have hbody := hno.rule
    rw [hkind] at hbody
    exact hfree h hbody
  have hwhole {xs ys : List Char} {nodes : List (Tree Rule)} (hsplit : w ++ after = xs ++ ys)
      (h : grammar.Reads false (.once (.rule r)) before xs ys nodes) :
      nodes = [.node r before.length xs []] ∧ Unreserved w ∧ xs = w ∧ ys = after := by
    obtain ⟨hnodes, hbody⟩ := h.of_atomic hkind
    exact ⟨hnodes, hread xs ys _ hsplit hbody⟩
  constructor
  · constructor
    · rintro ⟨fuel, hrun⟩
      obtain ⟨xs, ys, hsplit, -, h⟩ := (grammar.runsRead fuel).run hrun
      exact (hwhole hsplit h).2.1
    · intro h
      obtain ⟨xs, ys, nodes, hsplit, hmatches, hread⟩ := exists_matched_reading hfits (hnot h)
      obtain ⟨rfl, -, rfl, rfl⟩ := hwhole hsplit hread
      exact hmatches
  · constructor
    · intro hno h
      exact hnot h hno
    · intro h
      by_contra hno
      obtain ⟨xs, ys, nodes, hsplit, -, hread⟩ := exists_matched_reading hfits hno
      exact h (hwhole hsplit hread).2.1

theorem takesUnreserved_variable (hw : isIdentifier w = true) (hafter : ∀ c ∈ after.head?, isNameChar c = false) :
    TakesUnreserved .variable before w after := by
  apply takesUnreserved_of_reading rfl (by decide)
  · intro hfree h
    rcases h.seq with hno | ⟨xs, ys, _, hsplit, hahead, hno⟩
    · exact not_refuses_unreserved hw hafter hfree hno
    · obtain ⟨rfl, -, -⟩ := hahead.of_absent
      rw [List.nil_append] at hsplit
      subst hsplit
      exact not_refuses_symbolicName hw hno
  · intro cs rest nodes hsplit h
    obtain ⟨xs, ys, _, _, rfl, -, hahead, hname⟩ := h.of_tight_seq
    obtain ⟨rfl, -, -⟩ := hahead.of_absent
    rw [List.nil_append] at hsplit ⊢
    obtain ⟨rfl, rfl⟩ := eq_of_reads_symbolicName hw hafter hsplit hname
    exact ⟨fun v hv => not_reserved hahead hafter hv, rfl, rfl⟩

theorem takesUnreserved_functionName (hw : isIdentifier w = true)
    (hafter : ∀ c ∈ after.head?, isNameChar c = false ∧ c ≠ '.') :
    TakesUnreserved .functionName before w after := by
  have hnoName : ∀ c ∈ after.head?, isNameChar c = false := fun c hc => (hafter c hc).1
  apply takesUnreserved_of_reading rfl (by decide)
  · intro hfree h
    rcases h.seq with hno | ⟨xs, ys, _, hsplit, hahead, hno⟩
    · exact not_refuses_unreserved hw hnoName hfree hno
    obtain ⟨rfl, -, -⟩ := hahead.of_absent
    rw [List.nil_append] at hsplit
    subst hsplit
    rcases hno.seq with hno | ⟨_, _, _, -, -, hno⟩
    · exact not_refuses_symbolicName hw hno
    · exact not_refuses_many hno
  · intro cs rest nodes hsplit h
    obtain ⟨xs, ys, _, _, rfl, -, hahead, h⟩ := h.of_tight_seq
    obtain ⟨rfl, -, -⟩ := hahead.of_absent
    obtain ⟨name, more, _, _, rfl, -, hname, hmore⟩ := h.of_tight_seq
    rw [List.nil_append] at hsplit ⊢
    rw [List.append_assoc] at hsplit
    obtain ⟨rfl, hrest⟩ := eq_of_reads_symbolicName hw hnoName hsplit hname
    -- No round of the dotted parts begins: no dot follows.
    have hnone : more = [] := by
      cases hmore.rounds with
      | done => rfl
      | more hround =>
        obtain ⟨dot, part, _, _, rfl, -, hdot, -⟩ := hround.of_tight_seq
        obtain ⟨rfl, -⟩ := hdot.of_text
        exact absurd rfl (hafter '.' (by rw [← hrest]; rfl)).2
    rw [hnone, List.nil_append] at hrest
    subst hnone hrest
    rw [List.append_nil] at hahead ⊢
    exact ⟨fun v hv => not_reserved hahead hnoName hv, rfl, rfl⟩

/-- A variable of a tree is in back quotes or no reserved word. -/
theorem unreserved_of_variable {n : Tree Rule} (h : grammar.Grows source n) (hrule : n.rule = .variable)
    (hplain : n.text.head? ≠ some '`') : Unreserved n.text := by
  obtain ⟨before, after, hread⟩ := h.exists_reading (by rw [hrule]; rfl)
  rw [hrule] at hread
  obtain ⟨xs, ys, _, _, htext, -, hahead, hname⟩ := hread.of_tight_seq
  obtain ⟨rfl, -, -⟩ := hahead.of_absent
  rw [List.nil_append] at htext
  rw [htext] at hplain ⊢
  rcases reads_symbolicName hname with ⟨-, hafter⟩ | ⟨body, rfl, -⟩
  · exact fun v hv => not_reserved hahead hafter hv
  · exact absurd rfl hplain

/-- **An identifier names a variable or a function exactly if it is no reserved word**, and in a tree no
variable without back quotes is one. -/
theorem takes_unreserved_identifiers :
    (∀ before w after, isIdentifier w = true → (∀ c ∈ after.head?, isNameChar c = false) →
        TakesUnreserved .variable before w after) ∧
      (∀ before w after, isIdentifier w = true → (∀ c ∈ after.head?, isNameChar c = false ∧ c ≠ '.') →
        TakesUnreserved .functionName before w after) ∧
      ∀ source tree, parse source = .ok tree → ∀ n ∈ tree.nodes, n.rule = .variable →
        n.text.head? ≠ some '`' → Unreserved n.text :=
  ⟨fun _ _ _ hw hafter => takesUnreserved_variable hw hafter,
    fun _ _ _ hw hafter => takesUnreserved_functionName hw hafter,
    fun _ _ hparse _ hn => unreserved_of_variable ((grows_of_parse hparse).of_mem_nodes hn)⟩

/-- Names that go on where a reserved word ends, and one that ends where a longer word goes on. -/
theorem takes_unreserved_identifiers_order :
    grammar.Matches false (.rule .variable) ⟨0, "orders, x".toList⟩ ⟨6, ", x".toList⟩
        [.node .variable 0 "orders".toList []] ∧
      grammar.Refuses false (.rule .variable) [] "Desc, x".toList ∧
      grammar.Matches false (.rule .functionName) ⟨1, "In_(x)".toList⟩ ⟨4, "(x)".toList⟩
        [.node .functionName 1 "In_".toList []] ∧
      ∃ tree, parse "MATCH (asc1:P) RETURN asc1 AS `as`".toList = .ok tree ∧
        ∃ n ∈ tree.nodes, n.rule = .variable ∧ n.text = "asc1".toList ∧ Unreserved n.text := by
  obtain ⟨hvariable, hfunction, htree⟩ := takes_unreserved_identifiers
  obtain ⟨tree, hparse, hshown⟩ := exists_tree_of_any "MATCH (asc1:P) RETURN asc1 AS `as`".toList
    (fun tree => decide (∃ n ∈ tree.nodes, n.rule = .variable ∧ n.text = "asc1".toList)) (by decide +kernel)
  obtain ⟨n, hn, hrule, htext⟩ := of_decide_eq_true hshown
  have hcomma : ∀ c ∈ (", x".toList).head?, isNameChar c = false := by
    rintro c ⟨⟩
    rfl
  have hparen : ∀ c ∈ ("(x)".toList).head?, isNameChar c = false ∧ c ≠ '.' := by
    rintro c ⟨⟩
    exact ⟨rfl, by decide⟩
  refine ⟨?_, ?_, ?_, tree, hparse, n, hn, hrule, htext, htree _ tree hparse n hn hrule ?_⟩
  · exact (hvariable [] "orders".toList ", x".toList (by decide) hcomma).matched.mpr (by decide)
  · exact (hvariable [] "Desc".toList ", x".toList (by decide) hcomma).refused.mpr (by decide)
  · exact (hfunction ['('] "In_".toList "(x)".toList (by decide) hparen).matched.mpr (by decide)
  · rw [htext]
    decide

end QueryScore.Cypher
