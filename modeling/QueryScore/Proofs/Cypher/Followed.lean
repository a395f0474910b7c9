/-
# QueryScore.Proofs.Cypher.Followed -- a query read with a union behind it

A single query is read in the same way whether the text ends behind it or a blank and the word
`UNION` stand there. The grammar is run on both texts at the same time. Both runs take the same
tokens, since no token goes beyond a blank; where nothing of the query is left, the second run may
have skipped the blank before the first has an end to see (`Reaches.slid`), and there what comes
next mismatches in both runs or takes nothing in both (`atEnd`). The only places where a word could
be taken for a name are those behind a sign that awaits one, and no query ends there.
-/

import QueryScore.Proofs.Cypher.Search
import QueryScore.Proofs.Cypher.Sealed
import QueryScore.Proofs.Peg.Front

namespace QueryScore.Cypher

open Text Grammar Peg

variable {more cs xs after : List Char} {i fuel : Nat} {atomic : Bool} {c' d' : Cursor}
  {ns ms ns' ms' : List (Tree Rule)} {a b e : Peg Rule}

/-! ## Where nothing of the query is left -/

/-- The word of a union and the blank behind it. -/
def unionWord : List Char := "UNION ".toList

/-- The rule begins neither at the end of the text nor at the word of a union. -/
def Rule.isShut : Rule → Bool
  | .labelName | .relTypeName | .propertyKey | .mapEntry | .query | .union | .endOfText => false
  | .keyword w => clashes sameIgnoringCase unionWord w.toList
  | _ => true

theorem isShut_keyword {w : String} (h : Rule.isShut (.keyword w) = true) : w.toList.isEmpty = false := by
  cases hw : w.toList with
  | nil =>
    rw [Rule.isShut, hw] at h
    cases h
  | cons => rfl

theorem knows_end : grammar.Knows [] Rule.isShut where
  still hcs atomic i := by
    obtain rfl := hcs.ends rfl
    exact skips_of_settled ⟨by simp, rfl⟩ i atomic
  rule r hr := by
    refine .inl ?_
    cases r with
    | keyword w =>
      have hword : (Peg.word w.toList).verdict [] Rule.isShut = some false := by
        simp [Peg.verdict, isShut_keyword hr, clashes]
      show (Peg.seq (.word w.toList) (.absent identChar)).verdict [] Rule.isShut = some false
      rw [Peg.verdict, hword]
      rfl
    | _ => first | decide | cases hr

theorem fronts_union (more : List Char) : Fronts unionWord (unionWord ++ more) :=
  ⟨List.prefix_append _ _, by simp [unionWord]⟩

theorem settled_union (more : List Char) : Settled (unionWord ++ more) :=
  ⟨by simp [unionWord, isFillerBlank], rfl⟩

theorem still_union {cs : List Char} (hcs : Fronts unionWord cs) (atomic : Bool) (i : Nat) :
    grammar.Skips atomic ⟨i, cs⟩ ⟨i, cs⟩ := by
  obtain ⟨more, rfl⟩ := hcs.begins
  exact skips_of_settled (settled_union more) i atomic

/-- What can be told without any rule. -/
theorem knows_letters : grammar.Knows unionWord (fun _ => false) where
  still hcs := still_union hcs
  rule _ hr := by cases hr

/-- The word of a union is reserved, so no variable begins there. -/
theorem yields_unreserved_failed (more : List Char) (i : Nat) :
    grammar.Yields true unreserved ⟨i, unionWord ++ more⟩ .failed := by
  have hbefore : ∀ e ∈ (reservedWords.take 8).map fun word => Peg.word (ρ := Rule) word.toList,
      e.verdict unionWord (fun _ => false) = some false := by decide
  have hword : grammar.Yields true (.word "UNION".toList) ⟨i, unionWord ++ more⟩
      (.matched ⟨i + 5, ' ' :: more⟩ []) := yields_of_succ fun _ => .refl _
  have hwords : grammar.Yields true (alts (reservedWords.map fun word => .word word.toList)) _ _ :=
    Yields.alts (fun e he => knows_letters.yields (fronts_union more) (hbefore e he) true i) hword
  have hends : grammar.Yields true identChar ⟨i + 5, ' ' :: more⟩ .failed := by
    refine Yields.right ?_ (Yields.right ?_ ?_) <;> exact yields_of_succ fun _ => .refl _
  have hall := hwords.seq (skips_atomic _) hends.absent
  exact hall.absent_failed

theorem knows_union : grammar.Knows unionWord Rule.isShut where
  still hcs := still_union hcs
  rule r hr := by
    by_cases hname : r = .variable ∨ r = .functionName
    · refine .inr fun hcs atomic i => ?_
      obtain ⟨more, rfl⟩ := hcs.begins
      obtain ⟨name, hbody⟩ : ∃ name, grammar.body r = .seq unreserved name := by
        rcases hname with rfl | rfl <;> exact ⟨_, rfl⟩
      have hatomic : (atomic || decide (grammar.kind r = .atomic)) = true := by
        rcases hname with rfl | rfl <;> exact Bool.or_true atomic
      have hfails : grammar.Yields (atomic || decide (grammar.kind r = .atomic)) (grammar.body r)
          ⟨i, unionWord ++ more⟩ .failed := by
        rw [hatomic, hbody]
        exact (yields_unreserved_failed more i).seq_failed
      exact Yields.rule hfails
    · refine .inl ?_
      cases r with
      | keyword w =>
        have hshut : clashes sameIgnoringCase unionWord w.toList = true := hr
        have hword : (Peg.word w.toList).verdict unionWord Rule.isShut = some false := by
          simp [Peg.verdict, isShut_keyword hr, hshut]
        show (Peg.seq (.word w.toList) (.absent identChar)).verdict unionWord Rule.isShut = some false
        rw [Peg.verdict, hword]
        rfl
      | _ => first | exact absurd (by decide) hname | decide | cases hr

/-- What an expression does at the end of the text, if it does the same at the word of a union. -/
def atEnd (e : Peg Rule) : Option Bool :=
  if e.verdict [] Rule.isShut = e.verdict unionWord Rule.isShut then e.verdict [] Rule.isShut else none

theorem yields_atEnd {passes : Bool} (h : atEnd e = some passes) (i j : Nat) (more : List Char) :
    grammar.Yields false e ⟨i, []⟩ (Outcome.idle ⟨i, []⟩ passes) ∧
      grammar.Yields false e ⟨j, unionWord ++ more⟩ (Outcome.idle ⟨j, unionWord ++ more⟩ passes) := by
  rw [atEnd] at h
  split at h
  · rename_i hsame
    exact ⟨knows_end.yields ⟨List.nil_prefix, fun _ => rfl⟩ h false i,
      knows_union.yields (fronts_union more) (hsame ▸ h) false j⟩
  · cases h

/-! ## From the query alone to the query with a union behind it -/

/-- What stands behind the query: a blank, the word of a union, and more. -/
def unionBehind (more : List Char) : List Char := ' ' :: (unionWord ++ more)

/-- The text of a node may have got the blank behind the query at its end. -/
def Widened (xs ys : List Char) : Prop := ys = xs ∨ ys = xs ++ [' ']

/-- **`Reaches more atomic i cs c' d'`** -- from index `i`, where `cs` is left of the query, the run
on the query alone has come to `c'`, and the other one to `d'`. -/
inductive Reaches (more : List Char) (atomic : Bool) (i : Nat) (cs : List Char) : Cursor → Cursor → Prop
  /-- Both have taken the same. -/
  | apart {xs after : List Char} : cs = xs ++ after → modeAfter .outside xs = .outside →
      Reaches more atomic i cs ⟨i + xs.length, after⟩ ⟨i + xs.length, after ++ unionBehind more⟩
  /-- Nothing of the query is left, and the second run has skipped the blank. -/
  | slid : atomic = false →
      Reaches more atomic i cs ⟨i + cs.length, []⟩ ⟨i + cs.length + 1, unionWord ++ more⟩

/-- **`Arrives more atomic i cs c' ns d' ms`** -- the runs have come to `c'` and `d'`, and their
nodes are similar. -/
def Arrives (more : List Char) (atomic : Bool) (i : Nat) (cs : List Char) (c' : Cursor)
    (ns : List (Tree Rule)) (d' : Cursor) (ms : List (Tree Rule)) : Prop :=
  Reaches more atomic i cs c' d' ∧ SimilarAll Widened ns ms

theorem Reaches.refl : Reaches more atomic i cs ⟨i, cs⟩ ⟨i, cs ++ unionBehind more⟩ :=
  have hnone : modeAfter .outside [] = .outside := rfl
  .apart rfl hnone

theorem Reaches.trans (hcs : cs = xs ++ after) (hxs : modeAfter .outside xs = .outside)
    (h : Reaches more atomic (i + xs.length) after c' d') : Reaches more atomic i cs c' d' := by
  subst hcs
  cases h with
  | @apart ys rest hafter hys =>
    subst hafter
    rw [Nat.add_assoc, ← List.length_append]
    refine .apart (by simp) ?_
    rw [modeAfter_append, hxs, hys]
  | slid hatomic =>
    rw [Nat.add_assoc, ← List.length_append]
    exact .slid hatomic

theorem Arrives.trans (hcs : cs = xs ++ after) (hxs : modeAfter .outside xs = .outside)
    (h : Arrives more atomic (i + xs.length) after c' ns d' ms) : Arrives more atomic i cs c' ns d' ms :=
  ⟨h.1.trans hcs hxs, h.2⟩

theorem Arrives.refl : Arrives more atomic i cs ⟨i, cs⟩ [] ⟨i, cs ++ unionBehind more⟩ [] :=
  ⟨.refl, .nil⟩

/-! ## Tokens -/

/-- The character opens no quoted stretch and is not the blank behind the query. -/
def isInk (c : Char) : Bool := !isQuote c && c != ' '

theorem isInk_of_isAlphanum {c : Char} (h : c.isAlphanum = true) : isInk c = true := by
  have hp := of_isAscii (p := fun c => !c.isAlphanum || isInk c) (by decide) (isAscii_of_isAlphanum h)
  simpa [h] using hp

theorem modeAfter_of_ink (h : ∀ c ∈ xs, isInk c = true) : modeAfter .outside xs = .outside :=
  modeAfter_of_noQuote fun c hc => by
    have hink := h c hc
    simp only [isInk, Bool.and_eq_true, Bool.not_eq_true'] at hink
    exact hink.1

theorem arrives_strip {same : Char → Char → Bool} {strip : List Char → List Char → Option (List Char)}
    (hstrip : Strips same strip) {ws : List Char} (hws : ∀ w ∈ ws, ∀ x, same w x = true → isInk x = true) :
    (Outcome.ofRest ⟨i, cs⟩ ws.length (strip ws cs)).Alike (Arrives more atomic i cs)
      (Outcome.ofRest ⟨i, cs ++ unionBehind more⟩ ws.length (strip ws (cs ++ unionBehind more))) := by
  have hblank : ∀ w ∈ ws, same w ' ' = false := fun w hw => Bool.eq_false_iff.mpr fun hsame => by
    have hink := hws w hw ' ' hsame
    cases hink
  rw [unionBehind, hstrip.append_cons hblank]
  cases hrest : strip ws cs with
  | none => trivial
  | some rest =>
    obtain ⟨xs, rfl, hlength, hxs⟩ := hstrip.exists_eq_append hrest
    rw [← hlength]
    refine ⟨.apart rfl (modeAfter_of_ink fun x hx => ?_), .nil⟩
    obtain ⟨w, hw, hsame⟩ := hxs x hx
    exact hws w hw x hsame

theorem arrives_char {p : Char → Bool} (hp : ∀ x, p x = true → isInk x = true) :
    (Outcome.ofChar p ⟨i, cs⟩).Alike (Arrives more atomic i cs)
      (Outcome.ofChar p ⟨i, cs ++ unionBehind more⟩) := by
  cases cs with
  | nil =>
    have hblank : p ' ' = false := Bool.eq_false_iff.mpr fun h => by
      have hink := hp ' ' h
      cases hink
    simp only [List.nil_append, unionBehind, Outcome.ofChar, hblank]
    trivial
  | cons x cs =>
    simp only [List.cons_append, Outcome.ofChar]
    split
    · rename_i hx
      have hmode : modeAfter .outside [x] = .outside := modeAfter_of_ink (by simpa using hp x hx)
      exact ⟨.apart rfl hmode, .nil⟩
    · trivial

/-- A form that begins with a sign and is read as a whole, whatever stands behind it. -/
theorem arrives_form {w : Char} (hw : w ≠ ' ')
    (hform : ∀ rest, cs = w :: rest → ∃ xs after ns, cs = xs ++ after ∧ modeAfter .outside xs = .outside ∧
      ∀ ds, grammar.Yields atomic e ⟨i, xs ++ ds⟩ (.matched ⟨i + xs.length, ds⟩ ns))
    (hno : ∀ ds : List Char, (∀ x ∈ ds.head?, x ≠ w) → grammar.Yields atomic e ⟨i, ds⟩ .failed) :
    (grammar.run fuel atomic e ⟨i, cs⟩).Alike (Arrives more atomic i cs)
      (grammar.run fuel atomic e ⟨i, cs ++ unionBehind more⟩) := by
  by_cases hhead : cs.head? = some w
  · obtain ⟨rest, hcs⟩ := List.head?_eq_some_iff.mp hhead
    obtain ⟨xs, after, ns, rfl, hxs, hreads⟩ := hform rest hcs
    rw [List.append_assoc]
    refine (hreads after).alike (hreads (after ++ unionBehind more)) ?_ fuel
    exact ⟨.apart rfl hxs, .refl (fun _ => .inl rfl) ns⟩
  · refine (hno cs fun x hx => ?_).alike (hno _ fun x hx => ?_) trivial fuel
    · rintro rfl
      exact hhead hx
    · rintro rfl
      cases cs with
      | nil => exact hw (Option.some.inj hx).symm
      | cons => exact hhead hx

theorem arrives_between {q : Char} (hq : isQuote q = true)
    (hreads : ∀ {body}, Inside q false body → ∀ i rest,
      grammar.Yields true (seqs [.text [q], a, .text [q]]) ⟨i, q :: (body ++ q :: rest)⟩
        (.matched ⟨i + (body.length + 2), rest⟩ [])) (hcs : Sealed cs) :
    (grammar.run fuel true (seqs [.text [q], a, .text [q]]) ⟨i, cs⟩).Alike (Arrives more true i cs)
      (grammar.run fuel true (seqs [.text [q], a, .text [q]]) ⟨i, cs ++ unionBehind more⟩) := by
  refine arrives_form (w := q) (by
    rintro rfl
    cases hq) (fun rest hrest => ?_) fun ds hds => (yields_text_failed hds).seq_failed
  subst hrest
  obtain ⟨body, after, rfl, hbody, -⟩ := hcs.of_quote hq
  refine ⟨q :: (body ++ [q]), after, [], cons_quoted q body after, (hbody.inert hq).closed, fun ds => ?_⟩
  have hlength : (q :: (body ++ [q])).length = body.length + 2 := by simp
  rw [← cons_quoted, hlength]
  exact hreads hbody i ds

theorem arrives_quotedForm (he : quotedForms.contains e = true) (hcs : Sealed cs) :
    (grammar.run fuel true e ⟨i, cs⟩).Alike (Arrives more true i cs)
      (grammar.run fuel true e ⟨i, cs ++ unionBehind more⟩) := by
  have he : e = backQuoted ∨ e = stringBetween (sign "'") ∨ e = stringBetween (sign "\"") := by
    simpa [quotedForms] using he
  rcases he with rfl | rfl | rfl
  · exact arrives_between (by decide) (fun hbody => yields_backQuoted hbody) hcs
  · exact arrives_between (by decide) (fun hbody => yields_string (by decide) (by decide) hbody) hcs
  · exact arrives_between (by decide) (fun hbody => yields_string (by decide) (by decide) hbody) hcs

theorem arrives_parenGroup (hcs : Sealed cs) :
    (grammar.run fuel false (.rule .parenGroup) ⟨i, cs⟩).Alike (Arrives more false i cs)
      (grammar.run fuel false (.rule .parenGroup) ⟨i, cs ++ unionBehind more⟩) := by
  refine arrives_form (w := '(') (by decide) (fun rest hrest => ?_) fun ds hds => yields_parenGroup_failed hds
  subst hrest
  obtain ⟨g, after, rfl, hg, -⟩ := hcs.exists_group
  obtain ⟨nodes, hgrouped⟩ := hg.exists_grouped i
  have hcons (ds : List Char) : '(' :: (g ++ ')' :: ds) = ('(' :: (g ++ [')'])) ++ ds := by simp
  refine ⟨'(' :: (g ++ [')']), after, nodes, hcons after, ?_, fun ds => ?_⟩
  · show modeAfter .outside (g ++ [')']) = _
    rw [modeAfter_append, hg.closed]
    rfl
  · have hlength : ('(' :: (g ++ [')'])).length = g.length + 2 := by simp
    rw [← hcons, hlength]
    exact hgrouped ds

/-! ## Filler -/

theorem closed_of_blanks {fs : List Char} (h : ∀ c ∈ fs, isFillerBlank c = true) :
    modeAfter .outside fs = .outside :=
  (shown_of_blanks h).2

theorem Sealed.exists_skip (h : Sealed cs) :
    ∃ fs after, cs = fs ++ after ∧ (∀ c ∈ fs, isFillerBlank c = true) ∧ Sealed after ∧ Settled after := by
  induction cs with
  | nil => exact ⟨[], [], rfl, by simp, h, by simp, rfl⟩
  | cons c cs ih =>
    by_cases hc : isFillerBlank c = true
    · have hmode : modeAfter .outside [c] = .outside := closed_of_blanks (by simpa using hc)
      obtain ⟨fs, after, rfl, hfs, hafter, hsettled⟩ := ih (h.drop hmode)
      exact ⟨c :: fs, after, rfl, by simpa using ⟨hc, hfs⟩, hafter, hsettled⟩
    · refine ⟨[], c :: cs, rfl, by simp, h, by simpa using hc, ?_⟩
      exact commentSize_of_not_opensComment h.not_opensComment

/-- Where a part of the query is left, nothing is skipped in either run. -/
theorem settled_behind (hsealed : Sealed cs) (hsettled : Settled cs) (hne : cs ≠ []) (ds : List Char) :
    Settled (cs ++ ' ' :: ds) := by
  obtain ⟨c, cs, rfl⟩ := List.exists_cons_of_ne_nil hne
  refine ⟨hsettled.inked, commentSize_of_not_opensComment ?_⟩
  cases cs with
  | nil =>
    unfold opensComment
    split <;> simp_all
  | cons d cs =>
    rw [← hsealed.not_opensComment]
    exact opensComment_congr _ _

/-- Filler leads both runs to the same place, or to where nothing of the query is left. -/
theorem skips_together (hcs : Sealed cs) (i : Nat) (more : List Char) :
    ∃ fs after, cs = fs ++ after ∧ (∀ c ∈ fs, isFillerBlank c = true) ∧ Sealed after ∧ Settled after ∧
      grammar.Skips false ⟨i, cs⟩ ⟨i + fs.length, after⟩ ∧
      grammar.Skips false ⟨i, cs ++ unionBehind more⟩
        (if after = [] then ⟨i + fs.length + 1, unionWord ++ more⟩
          else ⟨i + fs.length, after ++ unionBehind more⟩) := by
  obtain ⟨fs, after, rfl, hfs, hafter, hsettled⟩ := hcs.exists_skip
  refine ⟨fs, after, rfl, hfs, hafter, hsettled, skips_of_filled (filled_of_blanks hfs) hsettled i, ?_⟩
  rw [List.append_assoc]
  split
  · rename_i hnil
    subst hnil
    have hblanks : ∀ c ∈ fs ++ [' '], isFillerBlank c = true := fun c hc => by
      rcases List.mem_append.mp hc with hc | hc
      · exact hfs c hc
      · rw [List.mem_singleton.mp hc]
        rfl
    have hskip := skips_of_filled (filled_of_blanks hblanks) (settled_union more) i
    rw [List.length_append, ← Nat.add_assoc] at hskip
    simpa [unionBehind] using hskip
  · rename_i hne
    exact skips_of_filled (filled_of_blanks hfs) (settled_behind hafter hsettled hne _) i

/-! ## Signs that await a name -/

/-- The expression is a sign that awaits a name, or nothing. -/
def awaits : Peg Rule → Bool
  | .text ws | .opt (.text ws) => ws.getLast?.any awaitsName
  | _ => false

theorem not_isBlank_of_awaitsName {c : Char} (h : awaitsName c = true) : isBlank c = false := by
  simp only [awaitsName, Bool.or_eq_true, beq_iff_eq] at h
  rcases h with (((rfl | rfl) | rfl) | rfl) | rfl <;> decide

/-- Behind a sign that awaits a name a part of the query is left. -/
theorem ne_nil_of_sign {ws fs : List Char} (hws : ws.getLast?.any awaitsName = true)
    (hcs : Sealed (ws ++ (fs ++ after))) (hfs : ∀ c ∈ fs, isFillerBlank c = true) : after ≠ [] := by
  rintro rfl
  obtain ⟨c, hlast, hc⟩ : ∃ c, ws.getLast? = some c ∧ awaitsName c = true := by
    cases hlast : ws.getLast? with
    | none =>
      rw [hlast] at hws
      cases hws
    | some c =>
      rw [hlast] at hws
      exact ⟨c, rfl, hws⟩
  have hblank : Blank fs := fun d hd => (isBlank_of_isFillerBlank (hfs d hd)).1
  have hink : lastInk (ws ++ (fs ++ [])) = some c := by
    rw [lastInk_append, List.append_nil, lastInk_of_blank hblank, Option.none_or]
    exact lastInk_of_getLast hlast (not_isBlank_of_awaitsName hc)
  have hno := hcs.finished c hink
  rw [hc] at hno
  cases hno

theorem ne_nil_of_awaits {fs : List Char} (ha : awaits a = true) (hcs : Sealed cs) (hne : cs ≠ [])
    (hsettled : Settled cs) (hrun : grammar.run fuel false a ⟨i, cs⟩ = .matched c' ns)
    (hrest : c'.rest = fs ++ after) (hfs : ∀ c ∈ fs, isFillerBlank c = true) : after ≠ [] := by
  have hsign {fuel : Nat} {ws : List Char} (hws : ws.getLast?.any awaitsName = true)
      (hrun : grammar.run fuel false (.text ws) ⟨i, cs⟩ = .matched c' ns) : after ≠ [] := by
    cases fuel with
    | zero => cases hrun
    | succ fuel =>
      obtain ⟨-, rest, hstrip, rfl⟩ := Outcome.ofRest_eq_matched hrun
      obtain rfl : rest = fs ++ after := hrest
      have hsplit : cs = ws ++ (fs ++ after) := stripStart_eq_some.mp hstrip
      exact ne_nil_of_sign hws (hsplit ▸ hcs) hfs
  cases a with
  | text ws => exact hsign ha hrun
  | opt a =>
    cases a with
    | text ws =>
      cases fuel with
      | zero => cases hrun
      | succ fuel =>
        rw [Grammar.run] at hrun
        rcases Outcome.orElse_eq_matched hrun with hrun | ⟨-, hnone⟩
        · exact hsign ha hrun
        · -- Nothing is taken, and nothing was to be skipped either.
          cases hnone
          obtain rfl : cs = fs ++ after := hrest
          have hfilled : Filled fs after := filled_of_blanks hfs
          obtain rfl := hfilled.eq_nil hsettled
          exact hne
    | _ => cases ha
  | _ => cases ha

/-! ## The grammar -/

/-- The rule may be met on the way: keywords consist of letters, and whole queries are not parts. -/
def Rule.isSound : Rule → Bool
  | .query | .union | .endOfText | .parenGroup => false
  | .keyword w => w.toList.all Char.isAlpha
  | _ => true

/-- The expression is read as a whole. -/
def isForm (atomic : Bool) (e : Peg Rule) : Bool :=
  if atomic then quotedForms.contains e else e == .rule .parenGroup

/-- The expression is built from forms, letters, digits and signs without blanks. Outside tokens,
what comes next does the same in both runs where nothing of the query is left, or it stands behind a
sign that awaits a name. -/
def isSound (atomic : Bool) (e : Peg Rule) : Bool :=
  isForm atomic e ||
    match e with
    | .text ws => ws.all isInk
    | .word ws => ws.all Char.isAlpha
    | .digit | .letter => true
    | .start | .stop | .any => false
    | .rule r => !atomic && r.isSound
    | .seq a b =>
      isSound atomic a && isSound atomic b && (atomic || (atEnd b).isSome || awaits a)
    | .alt a b => isSound atomic a && isSound atomic b
    | .many a => isSound atomic a && (atomic || atEnd a == some false)
    | .opt a | .absent a | .present a => isSound atomic a

theorem isSound_body {r : Rule} (hr : r.isSound = true) :
    isSound (decide (r.kind = .atomic)) r.body = true := by
  cases r with
  | keyword w =>
    have hend : isSound true (.absent identChar) = true := by decide
    have hword : isSound true (.word w.toList) = true := by
      rw [isSound, Bool.or_eq_true]
      exact .inr hr
    show isSound true (.seq (.word w.toList) (.absent identChar)) = true
    rw [isSound, hword, hend]
    simp
  | _ => first | decide | cases hr

/-- **`InStep more fuel`** -- with this fuel, both runs do the same. -/
structure InStep (more : List Char) (fuel : Nat) : Prop where
  /-- With an expression, where a part of the query is left, or inside a token. -/
  run {atomic : Bool} {e : Peg Rule} {i : Nat} {cs : List Char} : isSound atomic e = true → Sealed cs →
    (atomic = false → cs ≠ [] ∧ Settled cs) →
    (grammar.run fuel atomic e ⟨i, cs⟩).Alike (Arrives more atomic i cs)
      (grammar.run fuel atomic e ⟨i, cs ++ unionBehind more⟩)
  /-- With the further rounds of a repetition. -/
  again {atomic : Bool} {a : Peg Rule} {i : Nat} {cs : List Char} {c' d' : Cursor}
    {ns ms : List (Tree Rule)} : isSound atomic a = true → (atomic = false → atEnd a = some false) →
    Sealed cs → Arrives more atomic i cs c' ns d' ms →
    (grammar.repeatFrom fuel atomic a c' ns).Alike (Arrives more atomic i cs)
      (grammar.repeatFrom fuel atomic a d' ms)

section Step

/-- Where nothing of the query is left. -/
theorem arrives_atEnd (hb : (atEnd b).isSome = true) :
    (grammar.run fuel false b ⟨i + cs.length, []⟩).Alike (Arrives more false i cs)
      (grammar.run fuel false b ⟨i + cs.length + 1, unionWord ++ more⟩) := by
  obtain ⟨passes, hb⟩ := Option.isSome_iff_exists.mp hb
  obtain ⟨hend, hunion⟩ := yields_atEnd hb (i + cs.length) (i + cs.length + 1) more
  refine hend.alike hunion ?_ fuel
  cases passes with
  | true => exact ⟨.slid rfl, .nil⟩
  | false => trivial

/-- Filler and an expression, behind what the runs have taken. -/
theorem InStep.next (h : InStep more fuel) (hb : isSound atomic b = true) (hcs : Sealed cs)
    (hend : atomic = false → (atEnd b).isSome = true ∨ ∀ fs after, c'.rest = fs ++ after →
      (∀ c ∈ fs, isFillerBlank c = true) → after ≠ [])
    (hreach : Reaches more atomic i cs c' d') :
    ((grammar.skip fuel atomic c').andThen fun c₁ _ => grammar.run fuel atomic b c₁).Alike
      (Arrives more atomic i cs)
      ((grammar.skip fuel atomic d').andThen fun d₁ _ => grammar.run fuel atomic b d₁) := by
  cases hreach with
  | @apart xs rest hsplit hxs =>
    subst hsplit
    have hrest := hcs.drop hxs
    cases atomic with
    | true =>
      refine (skips_atomic _).alike_andThen (skips_atomic _) (fun _ _ => ?_) fuel
      exact (h.run hb hrest (by simp)).mono fun harrives => harrives.trans rfl hxs
    | false =>
      obtain ⟨fs, after, rfl, hfs, hafter, hsettled, hskip, hskip'⟩ :=
        skips_together hrest (i + xs.length) more
      refine hskip.alike_andThen hskip' (fun _ _ => ?_) fuel
      split
      · rename_i hnil
        subst hnil
        rcases hend rfl with hb | hleft
        · have hall : (grammar.run fuel false b _).Alike (Arrives more false i (xs ++ (fs ++ []))) _ :=
            arrives_atEnd hb
          simpa [Nat.add_assoc] using hall
        · exact absurd rfl (hleft fs [] rfl hfs)
      · rename_i hne
        refine (h.run hb hafter fun _ => ⟨hne, hsettled⟩).mono fun harrives => ?_
        exact (harrives.trans rfl (closed_of_blanks hfs)).trans rfl hxs
  | slid hatomic =>
    subst hatomic
    refine (knows_end.still ⟨List.nil_prefix, fun _ => rfl⟩ false _).alike_andThen
      (knows_union.still (fronts_union more) false _) (fun _ _ => ?_) fuel
    rcases hend rfl with hb | hleft
    · exact arrives_atEnd hb
    · exact absurd rfl (hleft [] [] rfl (by simp))

theorem InStep.seq (h : InStep more fuel) (ha : isSound atomic a = true) (hb : isSound atomic b = true)
    (hab : (atomic || (atEnd b).isSome || awaits a) = true) (hcs : Sealed cs)
    (hopen : atomic = false → cs ≠ [] ∧ Settled cs) :
    (grammar.run (fuel + 1) atomic (.seq a b) ⟨i, cs⟩).Alike (Arrives more atomic i cs)
      (grammar.run (fuel + 1) atomic (.seq a b) ⟨i, cs ++ unionBehind more⟩) := by
  refine Outcome.Alike.andThen (h.run ha hcs hopen).with_left fun {c₁ ns d₁ ms} hfirst => ?_
  obtain ⟨hrun, hreach, hnodes⟩ := hfirst
  rw [← Outcome.andThen_assoc, ← Outcome.andThen_assoc]
  refine Outcome.Alike.andThen (h.next hb hcs (fun hatomic => ?_) hreach) fun hsecond =>
    ⟨hsecond.1, hnodes.append hsecond.2⟩
  subst hatomic
  obtain ⟨hne, hsettled⟩ := hopen rfl
  rcases (Bool.or_eq_true _ _).mp hab with hb | ha
  · exact .inl hb
  · exact .inr fun fs after hrest hfs => ne_nil_of_awaits ha hcs hne hsettled hrun hrest hfs

theorem InStep.round (h : InStep more fuel) (ha : isSound atomic a = true)
    (hend : atomic = false → atEnd a = some false) (hcs : Sealed cs)
    (harrives : Arrives more atomic i cs c' ns d' ms) :
    (grammar.repeatFrom (fuel + 1) atomic a c' ns).Alike (Arrives more atomic i cs)
      (grammar.repeatFrom (fuel + 1) atomic a d' ms) := by
  have hround := h.next ha hcs (fun hatomic => .inl (by rw [hend hatomic]; rfl)) harrives.1
  rw [Grammar.repeatFrom, Grammar.repeatFrom]
  generalize (grammar.skip fuel atomic c').andThen _ = o at hround ⊢
  generalize (grammar.skip fuel atomic d').andThen _ = o' at hround ⊢
  -- Both rounds match and go on, or both mismatch and give the filler back.
  cases o with
  | exhausted => trivial
  | failed =>
    cases o' with
    | exhausted => exact Outcome.alike_exhausted_right _
    | failed => exact harrives
    | matched => exact hround.elim
  | matched c₁ ns' =>
    cases o' with
    | exhausted => exact Outcome.alike_exhausted_right _
    | failed => exact hround.elim
    | matched d₁ ms' => exact h.again ha hend hcs ⟨hround.1, harrives.2.append hround.2⟩

/-- A node spans what its rule has read. -/
theorem Arrives.leaveNode {r : Rule} (h : Arrives more (decide (r.kind = .atomic)) i cs c' ns d' ms) :
    Arrives more false i cs c' (leaveNode r.kind false r ⟨i, cs⟩ c' ns) d'
      (leaveNode r.kind false r ⟨i, cs ++ unionBehind more⟩ d' ms) := by
  obtain ⟨hreach, hnodes⟩ := h
  cases hreach with
  | @apart xs after hsplit hxs =>
    subst hsplit
    refine ⟨.apart rfl hxs, ?_⟩
    have htext : Cursor.textTo ⟨i, xs ++ after⟩ ⟨i + xs.length, after⟩ = xs := by
      rw [Cursor.textTo, Nat.add_sub_cancel_left, List.take_left]
    have htext' : Cursor.textTo ⟨i, xs ++ after ++ unionBehind more⟩
        ⟨i + xs.length, after ++ unionBehind more⟩ = xs := by
      rw [Cursor.textTo, Nat.add_sub_cancel_left, List.append_assoc, List.take_left]
    simp only [QueryScore.leaveNode, htext, htext']
    split
    · exact hnodes
    · exact .cons (.node (.inl rfl) (fun _ => rfl) hnodes) .nil
  | slid hatomic =>
    refine ⟨.slid rfl, ?_⟩
    have htext : Cursor.textTo ⟨i, cs⟩ ⟨i + cs.length, []⟩ = cs := by
      rw [Cursor.textTo, Nat.add_sub_cancel_left, List.take_length]
    have htext' : Cursor.textTo ⟨i, cs ++ unionBehind more⟩ ⟨i + cs.length + 1, unionWord ++ more⟩ =
        cs ++ [' '] := by
      have hsize : i + cs.length + 1 - i = (cs ++ [' ']).length := by simp; omega
      have hsplit : cs ++ unionBehind more = (cs ++ [' ']) ++ (unionWord ++ more) := by simp [unionBehind]
      rw [Cursor.textTo, hsize, hsplit, List.take_left]
    simp only [QueryScore.leaveNode, htext, htext']
    split
    · exact hnodes
    · exact .cons (.node (.inr rfl) (fun hkind => absurd hkind (of_decide_eq_false hatomic)) hnodes) .nil

theorem InStep.rule (h : InStep more fuel) {r : Rule} (hr : r.isSound = true) (hcs : Sealed cs)
    (hne : cs ≠ []) (hsettled : Settled cs) :
    (grammar.run (fuel + 1) false (.rule r) ⟨i, cs⟩).Alike (Arrives more false i cs)
      (grammar.run (fuel + 1) false (.rule r) ⟨i, cs ++ unionBehind more⟩) := by
  refine Outcome.Alike.andThen (h.run (isSound_body hr) hcs fun _ => ⟨hne, hsettled⟩) fun harrives => ?_
  exact harrives.leaveNode

theorem InStep.step (h : InStep more fuel) (he : isSound atomic e = true) (hcs : Sealed cs)
    (hopen : atomic = false → cs ≠ [] ∧ Settled cs) :
    (grammar.run (fuel + 1) atomic e ⟨i, cs⟩).Alike (Arrives more atomic i cs)
      (grammar.run (fuel + 1) atomic e ⟨i, cs ++ unionBehind more⟩) := by
  rw [isSound.eq_def, Bool.or_eq_true] at he
  rcases he with hform | he
  · cases atomic with
    | true => exact arrives_quotedForm hform hcs
    | false =>
      obtain rfl : e = .rule .parenGroup := by simpa [isForm] using hform
      exact arrives_parenGroup hcs
  cases e with
  | text ws =>
    refine arrives_strip strips_text fun w hw x hx => ?_
    obtain rfl := beq_iff_eq.mp hx
    exact List.all_eq_true.mp he w hw
  | word ws =>
    refine arrives_strip strips_word fun w hw x hx => ?_
    have hletter := isAlpha_of_sameIgnoringCase (List.all_eq_true.mp he w hw) hx
    exact isInk_of_isAlphanum (isAlphanum_of_isAlpha hletter)
  | digit => exact arrives_char fun x hx => isInk_of_isAlphanum (by simp [Char.isAlphanum, hx])
  | letter => exact arrives_char fun x hx => isInk_of_isAlphanum (isAlphanum_of_isAlpha hx)
  | any | start | stop => cases he
  | rule r =>
    obtain ⟨hatomic, hr⟩ := (Bool.and_eq_true _ _).mp he
    obtain rfl : atomic = false := by simpa using hatomic
    obtain ⟨hne, hsettled⟩ := hopen rfl
    exact h.rule hr hcs hne hsettled
  | seq a b =>
    obtain ⟨hboth, hab⟩ := (Bool.and_eq_true _ _).mp he
    obtain ⟨ha, hb⟩ := (Bool.and_eq_true _ _).mp hboth
    exact h.seq ha hb hab hcs hopen
  | alt a b =>
    obtain ⟨ha, hb⟩ := (Bool.and_eq_true _ _).mp he
    rw [Grammar.run, Grammar.run]
    exact Outcome.Alike.orElse (h.run ha hcs hopen) (h.run hb hcs hopen)
  | many a =>
    obtain ⟨ha, hend⟩ := (Bool.and_eq_true _ _).mp he
    rw [Grammar.run, Grammar.run]
    refine Outcome.Alike.orElse ?_ Arrives.refl
    refine Outcome.Alike.andThen (h.run ha hcs hopen) fun hfirst => h.again ha (fun hatomic => ?_) hcs hfirst
    subst hatomic
    simpa using hend
  | opt a =>
    rw [Grammar.run, Grammar.run]
    exact Outcome.Alike.orElse (h.run he hcs hopen) Arrives.refl
  | absent a =>
    have ha := h.run (i := i) he hcs hopen
    rw [Grammar.run, Grammar.run]
    generalize grammar.run fuel atomic a ⟨i, cs⟩ = o at ha ⊢
    generalize grammar.run fuel atomic a ⟨i, cs ++ unionBehind more⟩ = o' at ha ⊢
    cases o <;> cases o' <;> first | trivial | exact ha.elim | exact Arrives.refl
  | present a => exact Outcome.Alike.andThen (h.run he hcs hopen) fun _ => Arrives.refl

/-- **Both runs do the same**, whatever the fuel. -/
theorem inStep (more : List Char) (fuel : Nat) : InStep more fuel := by
  induction fuel with
  | zero => exact ⟨fun _ _ _ => trivial, fun _ _ _ _ => trivial⟩
  | succ fuel ih => exact ⟨ih.step, ih.round⟩

end Step

end QueryScore.Cypher
