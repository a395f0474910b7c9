/-
# QueryScore.Proofs.Cypher.Nesting -- how deep the tree of an accepted query nests

Each bracket of a query opens one level of its tree and each `CASE` another. The guard counts
both on the raw text before the grammar is tried, with a scanner that knows quotes and no
comments. Here the grammar is followed along the text with its comments blanked, rule by rule:
the state says how many brackets the present rule has opened, how deep it surely went, how many
`CASE` it surely passed, and whether a word may begin (`Stance`). Every rule closes what it opens,
and its parts stand at least as deep as the tree says (`Follows`). So on every path of the tree
the levels are at most what the guard counts on the text without comments.
-/

import QueryScore.Cypher.Parse
import QueryScore.Proofs.Cypher.Token
import QueryScore.Proofs.Peg.Flow

namespace QueryScore

/-! ## Paths of a tree -/

namespace Tree

variable {ρ : Type}

mutual

/-- The rules on each way from the root to a leaf. -/
def paths : Tree ρ → List (List ρ)
  | .node r _ _ [] => [[r]]
  | .node r _ _ (t :: ts) => (paths t ++ pathsAll ts).map (r :: ·)

/-- The paths of several trees. -/
def pathsAll : List (Tree ρ) → List (List ρ)
  | [] => []
  | t :: ts => paths t ++ pathsAll ts

end

theorem mem_pathsAll {ts : List (Tree ρ)} {p : List ρ} :
    p ∈ pathsAll ts ↔ ∃ t ∈ ts, p ∈ t.paths := by
  induction ts with
  | nil => simp [pathsAll]
  | cons t ts ih => simp [pathsAll, ih]

theorem mem_paths {r : ρ} {i : Nat} {cs : List Char} {ts : List (Tree ρ)} {p : List ρ} :
    p ∈ (node r i cs ts).paths ↔
      ts = [] ∧ p = [r] ∨ ∃ t ∈ ts, ∃ q ∈ t.paths, p = r :: q := by
  cases ts with
  | nil => simp [paths]
  | cons t ts =>
    have hall : paths t ++ pathsAll ts = pathsAll (t :: ts) := by rw [pathsAll]
    rw [paths, hall, List.mem_map]
    simp only [mem_pathsAll, reduceCtorEq, false_and, false_or]
    constructor
    · rintro ⟨q, ⟨u, hu, hq⟩, rfl⟩
      exact ⟨u, hu, q, hq, rfl⟩
    · rintro ⟨u, hu, q, hq, rfl⟩
      exact ⟨q, ⟨u, hu, hq⟩, rfl⟩

/-- A path begins at the root. -/
theorem head_of_mem_paths {t : Tree ρ} {p : List ρ} (h : p ∈ t.paths) :
    p.head? = some t.rule := by
  obtain ⟨r, i, cs, ts⟩ := t
  rcases mem_paths.mp h with ⟨-, rfl⟩ | ⟨_, _, _, _, rfl⟩ <;> rfl

end Tree

namespace Cypher

open Text Grammar Peg

/-! ## Levels of a path -/

/-- The rules that stand between brackets. -/
def Rule.isBracket (r : Rule) : Bool :=
  [.parenthesizedExpression, .listLiteral, .mapLiteral, .indexLookup, .functionInvocation,
    .countStar, .nodePattern, .relationshipDetail].contains r

/-- The brackets that a rule itself opens. -/
def Rule.opens (r : Rule) : Nat := if r.isBracket then 1 else 0

/-- The brackets that stand between the start of a rule and a part of it: a path in parentheses
is a path directly inside a path. -/
def Rule.opensBefore (owner part : Rule) : Nat :=
  owner.opens + if owner = .patternElement ∧ part = .patternElement then 1 else 0

/-- The brackets that are opened along a path. -/
def openedOn : List Rule → Nat
  | [] => 0
  | [r] => r.opens
  | r :: q :: rest => r.opensBefore q + openedOn (q :: rest)

/-- The levels along a path: brackets and choices by cases. -/
def levelsOn (path : List Rule) : Nat := openedOn path + path.count .caseExpression

/-! ## Words and depths along a text -/

/-- How often a lower-case word stands in a text that follows `before` and is followed by
`rest`. -/
def wordsIn (word : List Char) (before : Option Char) : List Char → List Char → Nat
  | [], _ => 0
  | c :: cs, rest =>
    (if wordAt word before (c :: cs ++ rest) then 1 else 0) + wordsIn word (some c) cs rest

theorem wordsIn_nil (word : List Char) (before : Option Char) (cs : List Char) :
    wordsIn word before cs [] = countWordFrom word before cs := by
  induction cs generalizing before with
  | nil => rfl
  | cons c cs ih => simp [wordsIn, countWordFrom, ih]

theorem wordsIn_append (word : List Char) (before : Option Char) (cs ds rest : List Char) :
    wordsIn word before (cs ++ ds) rest =
      wordsIn word before cs (ds ++ rest) + wordsIn word (cs.getLast?.or before) ds rest := by
  induction cs generalizing before with
  | nil => simp [wordsIn]
  | cons c cs ih =>
    rw [List.cons_append, wordsIn, ih, wordsIn, getLast?_cons_or, Nat.add_assoc, List.cons_append,
      List.cons_append, List.append_assoc]

theorem depth_le_deepest (s : Scanner) (cs : List Char) : s.depth ≤ s.deepest cs := by
  cases cs with
  | nil => exact Nat.le_refl _
  | cons c cs => exact Nat.le_max_left _ _

theorem deepest_append (s : Scanner) (cs ds : List Char) :
    s.deepest (cs ++ ds) = max (s.deepest cs) ((s.run cs).deepest ds) := by
  induction cs generalizing s with
  | nil => exact (Nat.max_eq_right (depth_le_deepest s ds)).symm
  | cons c cs ih =>
    show max s.depth (Scanner.deepest (s.step c) (cs ++ ds)) = _
    rw [ih, ← Nat.max_assoc]
    rfl

theorem deepest_le_append (s : Scanner) (cs ds : List Char) : s.deepest cs ≤ s.deepest (cs ++ ds) := by
  rw [deepest_append]
  exact Nat.le_max_left _ _

theorem depth_run_le_deepest (s : Scanner) (cs : List Char) :
    (s.run cs).depth ≤ s.deepest cs := by
  have h := deepest_append s cs []
  rw [List.append_nil] at h
  rw [h]
  exact Nat.le_max_right _ _

/-! ## The grammar along a text -/

/-- The rule begins with an operand, which may be a choice by cases; so a word may have to begin
where it begins. -/
def Rule.beginsWord (r : Rule) : Bool :=
  [.projectionBody, .projectionItems, .projectionItem, .sortItem, .expression, .orExpression,
    .xorExpression, .andExpression, .notExpression, .comparisonExpression, .predicateExpression,
    .additiveExpression, .multiplicativeExpression, .powerExpression, .unaryExpression,
    .postfixExpression, .atom, .caseExpression].contains r

/-- A word may begin behind the rule: it is a keyword or an operator. -/
def Rule.endsWord : Rule → Bool
  | .keyword _ | .comparisonOperator | .additiveOperator | .multiplicativeOperator
    | .unaryOperator => true
  | _ => false

/-- The rule may read a slash, so it has to begin where no comment does. -/
def Rule.slashes (r : Rule) : Bool := r == .multiplicativeOperator

/-- Brackets that have to be open, counted from the start of `owner`, where a part of it begins. -/
def Rule.bracketsBefore (owner part : Rule) : Nat :=
  if part.kind = .atomic then 0 else owner.opensBefore part

/-- A choice by cases counts once. -/
def Rule.choice (r : Rule) : Nat := if r = .caseExpression then 1 else 0

/-- Words `CASE` that have to be passed, counted from the start of `owner`, where a part of it
begins. -/
def Rule.choicesBefore (owner part : Rule) : Nat :=
  if part.kind = .atomic then 0 else owner.choice

/-- What is known at a place inside the body of a rule. -/
structure Stance where
  /-- The rule. -/
  owner : Rule
  /-- The brackets that it has opened and not closed. -/
  level : Nat := 0
  /-- How many of them were open at once, at least. -/
  peak : Nat := 0
  /-- How many words `CASE` were passed, at least. -/
  choices : Nat := 0
  /-- No word reaches from before into what follows. -/
  apart : Bool
  /-- No comment begins here. -/
  settled : Bool
  deriving DecidableEq

/-- The brackets that are open after a sign without quotes; nothing is closed that is not open. -/
def levelAfter : Nat → List Char → Option Nat
  | level, [] => some level
  | level, c :: cs =>
    if isQuote c || !isAscii c then none
    else if isOpening c then levelAfter (level + 1) cs
    else if isClosing c then
      match level with
      | 0 => none
      | level + 1 => levelAfter level cs
    else levelAfter level cs

/-- The stance at the start of a rule. -/
def Stance.entering (r : Rule) : Stance :=
  { owner := r, apart := r.beginsWord, settled := r.slashes }

/-- The stance after a sign. -/
def Stance.sign (ws : List Char) (s : Stance) : Option Stance :=
  if ws = [] ∨ '/' ∈ ws ∧ ¬ (ws = ['/'] ∧ s.settled) then none
  else (levelAfter s.level ws).map fun level =>
    { s with level, peak := max s.peak level, apart := isOpenSide ws.getLast?, settled := false }

/-- The stance after a rule that may stand here. -/
def Stance.cross (r : Rule) (s : Stance) : Option Stance :=
  if r.isPart ∧ s.owner.bracketsBefore r ≤ s.level ∧ s.owner.choicesBefore r ≤ s.choices ∧
      (r.beginsWord → s.apart) ∧ (r.slashes → s.settled) then
    some { s with
      choices := if r = .keyword "CASE" ∧ s.apart then s.choices + 1 else s.choices
      apart := r.endsWord
      settled := false }
  else none

/-- What two stances have in common. -/
def Stance.meet (s t : Stance) : Option Stance :=
  if s.owner = t.owner ∧ s.level = t.level then
    some { s with
      peak := min s.peak t.peak
      choices := min s.choices t.choices
      apart := s.apart && t.apart
      settled := s.settled && t.settled }
  else none

/-- How stances change along a text. -/
def stanceFlow : Flow Rule Stance where
  sign := Stance.sign
  cross := Stance.cross
  settle s := { s with settled := true }
  meet := Stance.meet

/-- Behind its body a rule has closed its brackets, was as deep as it opens, passed its `CASE`,
and ends a word if it is said to. -/
def Stance.completes (s : Stance) (r : Rule) : Bool :=
  s.owner == r && s.level == 0 && r.opens ≤ s.peak && r.choice ≤ s.choices &&
    (!r.endsWord || s.apart)

/-- Every rule that is not atomic can be followed from its start to its end. -/
theorem exists_completes {r : Rule} (hr : r.isPart = true) (hkind : r.kind = .normal) :
    ∃ s, stanceFlow.pass r.body (.entering r) = some s ∧ s.completes r = true := by
  have hall : (normalRules.all fun r =>
      !r.isPart || (stanceFlow.pass r.body (.entering r)).any (·.completes r)) = true := by
    decide +kernel
  have hone := of_normalRules hall hkind
  rw [hr, Bool.not_true, Bool.false_or] at hone
  exact (Option.any_eq_true _ _).mp hone

/-! ## What a stance says of a text -/

/-- The words `CASE` of a text that is followed by `rest`. -/
def choicesIn (cs rest : List Char) : Nat := wordsIn "case".toList none cs rest

theorem choicesIn_append (cs ds rest : List Char) :
    choicesIn (cs ++ ds) rest =
      choicesIn cs (ds ++ rest) + wordsIn "case".toList cs.getLast? ds rest := by
  rw [choicesIn, wordsIn_append, Option.or_none]
  rfl

/-- A stretch without its comments loses no `CASE` that was passed before it. -/
theorem choicesIn_le_append {bare cs after more : List Char} (h : Bares cs after more) :
    choicesIn bare (uncommented (cs ++ after)) ≤ choicesIn (bare ++ more) (uncommented after) := by
  rw [choicesIn_append, ← h.2]
  exact Nat.le_add_right _ _

/-- **`s.Holds depth count bare after`** -- the stance is right before `after`, behind a text
whose comment-free form is `bare`; its rule began at this bracket depth, behind this many `CASE`. -/
structure Stance.Holds (depth count : Nat) (s : Stance) (bare after : List Char) : Prop where
  level : Scanner.run {} bare = ⟨.outside, depth + s.level⟩
  peak : depth + s.peak ≤ Scanner.deepest {} bare
  choices : count + s.choices ≤ choicesIn bare (uncommented after)
  apart : s.apart = true →
    isOpenSide bare.getLast? = true ∨ ∀ c ∈ after.head?, isNameChar c = false
  settled : s.settled = true → commentSize after = 0

/-- **`Bounded depth count owner bare rest t`** -- the text, up to a place, goes as deep and passes
as many `CASE` as each path of the tree needs; the tree is a part of `owner`. -/
structure Bounded (depth count : Nat) (owner : Rule) (bare rest : List Char) (t : Tree Rule) :
    Prop where
  brackets : ∀ path ∈ t.paths,
    depth + owner.bracketsBefore t.rule + openedOn path ≤ Scanner.deepest {} bare
  choices : ∀ path ∈ t.paths,
    count + owner.choicesBefore t.rule + path.count .caseExpression ≤ choicesIn bare rest
  leaf : t.rule.kind = .atomic → t.children = []

theorem Bounded.append {depth count : Nat} {owner : Rule} {bare more rest : List Char}
    {t : Tree Rule} (h : Bounded depth count owner bare (more ++ rest) t) :
    Bounded depth count owner (bare ++ more) rest t where
  brackets path hpath := Nat.le_trans (h.brackets path hpath) (deepest_le_append _ _ _)
  choices path hpath := by
    rw [choicesIn_append]
    exact Nat.le_trans (h.choices path hpath) (Nat.le_add_right _ _)
  leaf := h.leaf

/-- **`Follows s t before cs after nodes`** -- a stretch that leads from one stance to another and
leaves nodes within bounds. -/
structure Follows (s t : Stance) (before cs after : List Char) (nodes : List (Tree Rule)) : Prop where
  owner : t.owner = s.owner
  led : ∀ c ∈ cs.head?, isAscii c = true
  holds : ∀ {depth count : Nat} {bare : List Char}, (∀ c ∈ after.head?, isAscii c = true) →
    s.Holds depth count bare (cs ++ after) → ∃ more, Bares cs after more ∧
      t.Holds depth count (bare ++ more) after ∧
        ∀ n ∈ nodes, Bounded depth count s.owner (bare ++ more) (uncommented after) n

variable {s t u v : Stance} {before cs ds after : List Char} {ns ms : List (Tree Rule)}

theorem Follows.nil : Follows s s before [] after [] where
  owner := rfl
  led := by simp
  holds _ h := ⟨[], .nil, by simpa using h, by simp⟩

theorem led_append (hcs : ∀ c ∈ cs.head?, isAscii c = true)
    (hds : ∀ c ∈ ds.head?, isAscii c = true) : ∀ c ∈ (cs ++ ds).head?, isAscii c = true := by
  cases cs with
  | nil => exact hds
  | cons c cs => exact hcs

theorem Follows.append (h₁ : Follows s t before cs (ds ++ after) ns)
    (h₂ : Follows t u (before ++ cs) ds after ms) :
    Follows s u before (cs ++ ds) after (ns ++ ms) where
  owner := h₂.owner.trans h₁.owner
  led := led_append h₁.led h₂.led
  holds {depth count bare} hafter h := by
    rw [List.append_assoc] at h
    obtain ⟨more₁, hbares₁, hholds₁, hns⟩ := h₁.holds (led_append h₂.led hafter) h
    obtain ⟨more₂, hbares₂, hholds₂, hms⟩ := h₂.holds hafter hholds₁
    rw [List.append_assoc] at hholds₂
    refine ⟨more₁ ++ more₂, hbares₁.append hbares₂, hholds₂, fun n hn => ?_⟩
    rw [← List.append_assoc]
    rcases List.mem_append.mp hn with hn | hn
    · have hbound := hns n hn
      rw [hbares₂.2] at hbound
      exact hbound.append
    · rw [← h₁.owner]
      exact hms n hn

theorem Stance.Holds.weaken {depth count : Nat} {bare : List Char}
    (h : s.Holds depth count bare after) (hlevel : t.level = s.level) (hpeak : t.peak ≤ s.peak)
    (hchoices : t.choices ≤ s.choices) (hapart : t.apart = true → s.apart = true)
    (hsettled : t.settled = true → s.settled = true) : t.Holds depth count bare after where
  level := by rw [hlevel]; exact h.level
  peak := Nat.le_trans (Nat.add_le_add_left hpeak _) h.peak
  choices := Nat.le_trans (Nat.add_le_add_left hchoices _) h.choices
  apart ha := h.apart (hapart ha)
  settled hs := h.settled (hsettled hs)

theorem Follows.meet_left (hmeet : Stance.meet t u = some v) (h : Follows s t before cs after ns) :
    Follows s v before cs after ns := by
  unfold Stance.meet at hmeet
  split at hmeet
  · cases hmeet
    refine ⟨h.owner, h.led, fun hafter hs => ?_⟩
    obtain ⟨more, hbares, hholds, hns⟩ := h.holds hafter hs
    exact ⟨more, hbares, hholds.weaken rfl (Nat.min_le_left _ _) (Nat.min_le_left _ _)
      (by simp +contextual) (by simp +contextual), hns⟩
  · cases hmeet

theorem Follows.meet_right (hmeet : Stance.meet t u = some v) (h : Follows s u before cs after ns) :
    Follows s v before cs after ns := by
  unfold Stance.meet at hmeet
  split at hmeet
  · rename_i hsame
    cases hmeet
    refine ⟨hsame.1.trans h.owner, h.led, fun hafter hs => ?_⟩
    obtain ⟨more, hbares, hholds, hns⟩ := h.holds hafter hs
    exact ⟨more, hbares, hholds.weaken hsame.2 (Nat.min_le_right _ _) (Nat.min_le_right _ _)
      (by simp +contextual) (by simp +contextual), hns⟩
  · cases hmeet

/-! ## One step along a text -/

theorem isAscii_of_isFillerBlank {c : Char} (h : isFillerBlank c = true) :
    isPlain c = true ∧ isOpenSide (some c) = true := by
  simp only [isFillerBlank, Bool.or_eq_true, beq_iff_eq] at h
  rcases h with ((rfl | rfl) | rfl) | rfl <;> decide +kernel

/-- Blanking keeps the first character of a text, unless a slash begins a comment there. -/
theorem led_of_bares {bare : List Char} (h : Bares cs after bare)
    (hbare : ∀ c ∈ bare.head?, isAscii c = true) : ∀ c ∈ cs.head?, isAscii c = true := by
  cases cs with
  | nil => simp
  | cons c cs =>
    intro d hd
    obtain rfl := Option.some.inj hd
    by_cases hslash : c = '/'
    · subst hslash
      decide
    obtain ⟨b, bare, rfl⟩ : ∃ b rest, bare = b :: rest := by
      cases bare with
      | nil => cases h.1
      | cons b bare => exact ⟨b, bare, rfl⟩
    have hfirst := h.2
    rw [uncommented, List.cons_append, uncommentFrom, if_pos ⟨rfl, rfl⟩,
      commentSize_of_ne hslash] at hfirst
    obtain ⟨rfl, -⟩ := List.cons.inj hfirst
    exact hbare c rfl

/-- Filler begins with a blank or a slash. -/
theorem led_of_filler {nodes : List (Tree Rule)}
    (h : grammar.Reads true (.once grammar.filler) before cs after nodes) :
    ∀ c ∈ cs.head?, isAscii c = true := by
  obtain ⟨-, bare, hbares, hblank⟩ := reads_filler h
  have hinert : Inert bare := .of_isPlain fun c hc => (isAscii_of_isFillerBlank (hblank c hc)).1
  exact led_of_bares hbares hinert.led

theorem isOpenSide_getLast {bare more : List Char} (hne : more ≠ [])
    (h : ∀ c ∈ more, isOpenSide (some c) = true) :
    isOpenSide (bare ++ more).getLast? = true := by
  rw [List.getLast?_append, List.getLast?_eq_some_getLast hne, Option.some_or]
  exact h _ (List.getLast_mem hne)

theorem Follows.filler {nodes : List (Tree Rule)}
    (h : grammar.Reads true (.once grammar.filler) before cs after nodes) :
    Follows s { s with settled := true } before cs after [] := by
  obtain ⟨hsettled, bare', hbares, hblank⟩ := reads_filler h
  have hinert : Inert bare' := .of_isPlain fun c hc => (isAscii_of_isFillerBlank (hblank c hc)).1
  refine ⟨rfl, led_of_filler h, fun {depth count bare} _ hs => ?_⟩
  refine ⟨bare', hbares, ⟨?_, ?_, ?_, ?_, fun _ => hsettled⟩, by simp⟩
  · rw [Scanner.run_append, hs.level, hinert.level]
  · exact Nat.le_trans hs.peak (deepest_le_append _ _ _)
  · exact Nat.le_trans hs.choices (choicesIn_le_append hbares)
  · intro ha
    -- Without filler the place is the one before it; otherwise its last character ends a word.
    by_cases hnil : bare' = []
    · subst hnil
      obtain rfl := List.eq_nil_of_length_eq_zero hbares.1.symm
      simpa using hs.apart ha
    · exact .inl (isOpenSide_getLast hnil fun c hc => (isAscii_of_isFillerBlank (hblank c hc)).2)

/-- What a sign does to a scan. -/
theorem of_levelAfter {ws : List Char} {level level' : Nat} (h : levelAfter level ws = some level') :
    (∀ c ∈ ws, isAscii c = true) ∧ modeAfter .outside ws = .outside ∧
      ∀ depth, Scanner.run ⟨.outside, depth + level⟩ ws = ⟨.outside, depth + level'⟩ := by
  induction ws generalizing level with
  | nil =>
    cases h
    exact ⟨by simp, rfl, fun _ => rfl⟩
  | cons c ws ih =>
    unfold levelAfter at h
    split at h
    · cases h
    rename_i hc
    simp only [Bool.or_eq_true, Bool.not_eq_true', not_or, Bool.not_eq_true,
      Bool.not_eq_false] at hc
    obtain ⟨hquote, hascii⟩ := hc
    have hmode : Mode.step .outside c = .outside := by simp [Mode.step, hquote]
    have hshows : Mode.shows .outside c = true := by simp [Mode.shows, hquote]
    -- The first character moves the depth as the level, and the rest goes on from there.
    have hgo (next : Nat) (hnext : levelAfter next ws = some level')
        (hdepth : ∀ depth, depthAfter (depth + level) c = depth + next) :
        (∀ d ∈ c :: ws, isAscii d = true) ∧ modeAfter .outside (c :: ws) = .outside ∧
          ∀ depth, Scanner.run ⟨.outside, depth + level⟩ (c :: ws) = ⟨.outside, depth + level'⟩ := by
      obtain ⟨hws, hm, hrun⟩ := ih hnext
      refine ⟨by simpa [hascii] using hws, ?_, fun depth => ?_⟩
      · show modeAfter (Mode.step .outside c) ws = _
        rw [hmode, hm]
      · show Scanner.run (Scanner.step ⟨.outside, depth + level⟩ c) ws = _
        rw [Scanner.step, hmode, hshows, if_pos rfl, hdepth depth]
        exact hrun depth
    split at h
    · rename_i hopen
      exact hgo (level + 1) h fun depth => by simp [depthAfter, hopen, Nat.add_assoc]
    rename_i hopen
    split at h
    · rename_i hclose
      cases level with
      | zero => cases h
      | succ level => exact hgo level h fun depth => by simp [depthAfter, hopen, hclose]
    · rename_i hclose
      exact hgo level h fun depth => by simp [depthAfter, hopen, hclose]

theorem shown_of_forall {p : Char → Prop} {m : Mode} {cs : List Char} (h : ∀ c ∈ cs, p c) :
    Shown p m cs := by
  induction cs generalizing m with
  | nil => trivial
  | cons c cs ih => exact ⟨fun _ => h c (by simp), ih fun d hd => h d (by simp [hd])⟩

theorem Follows.sign {ws : List Char} (h : Stance.sign ws s = some t) :
    Follows s t before ws after [] := by
  unfold Stance.sign at h
  split at h
  · cases h
  rename_i hws
  obtain ⟨hne, hslash⟩ := not_or.mp hws
  obtain ⟨level, hlevel, rfl⟩ := Option.map_eq_some_iff.mp h
  obtain ⟨hascii, hmode, hrun⟩ := of_levelAfter hlevel
  refine ⟨rfl, fun c hc => hascii c (List.mem_of_mem_head? hc), fun {depth count bare} _ hs => ?_⟩
  have hbares : Bares ws after ws := by
    -- A slash is a sign only where no comment begins, which the filler before it has settled.
    by_cases hmem : '/' ∈ ws
    · obtain ⟨rfl, hsettled⟩ := Decidable.not_not.mp (not_and.mp hslash hmem)
      exact .slash (hs.settled hsettled)
    · exact .of_shown (shown_of_forall fun c hc => ne_of_mem_of_not_mem hc hmem) hmode
  have hend : Scanner.run {} (bare ++ ws) = ⟨.outside, depth + level⟩ := by
    rw [Scanner.run_append, hs.level, hrun]
  refine ⟨ws, hbares, ⟨hend, ?_, ?_, ?_, by simp⟩, by simp⟩
  · have hpeak : depth + s.peak ≤ Scanner.deepest {} (bare ++ ws) :=
      Nat.le_trans hs.peak (deepest_le_append _ _ _)
    have hlast : depth + level ≤ Scanner.deepest {} (bare ++ ws) := by
      have hrun := depth_run_le_deepest {} (bare ++ ws)
      rwa [hend] at hrun
    show depth + max s.peak level ≤ _
    omega
  · exact Nat.le_trans hs.choices (choicesIn_le_append hbares)
  · intro ha
    refine .inl ?_
    rw [List.getLast?_append, List.getLast?_eq_some_getLast hne, Option.some_or]
    rwa [List.getLast?_eq_some_getLast hne] at ha

/-- A character of ASCII that belongs to no identifier ends a word. -/
theorem isOpenSide_of_not_isNameChar {c : Char} (hascii : isAscii c = true)
    (h : isNameChar c = false) : isOpenSide (some c) = true := by
  have hp := of_isAscii (p := fun c => isNameChar c || isOpenSide (some c)) (by decide +kernel)
    hascii
  simpa [h] using hp

/-- Blanking comments leaves the end of a word where it is. -/
theorem isOpenSide_uncommented (hafter : ∀ c ∈ after.head?, isAscii c = true)
    (hname : ∀ c ∈ after.head?, isNameChar c = false) :
    isOpenSide (uncommented after).head? = true := by
  cases after with
  | nil => rfl
  | cons c rest =>
    rw [uncommented, uncommentFrom]
    split
    · exact isOpenSide_of_not_isNameChar (hafter c rfl) (hname c rfl)
    · show isOpenSide (some ' ') = true
      decide +kernel

theorem stripFolded_append {word : List Char} (h : cs.map asciiLower = word) (rest : List Char) :
    stripFolded word (cs ++ rest) = some rest := by
  induction cs generalizing word with
  | nil =>
    subst h
    rfl
  | cons c cs ih =>
    subst h
    show (if foldsTo (asciiLower c) c = true then _ else none) = _
    rw [if_pos (by simp [foldsTo])]
    exact ih rfl

/-- A keyword is a word of the text around it. -/
theorem wordAt_append {word : List Char} {before : Option Char} {rest : List Char}
    (hcs : cs.map asciiLower = word) (hbefore : isOpenSide before = true)
    (hrest : isOpenSide rest.head? = true) : wordAt word before (cs ++ rest) = true := by
  rw [wordAt, hbefore, stripFolded_append hcs]
  simpa using hrest

theorem le_wordsIn_of_wordAt {word : List Char} {before : Option Char} {rest : List Char}
    (hne : cs ≠ []) (h : wordAt word before (cs ++ rest) = true) :
    1 ≤ wordsIn word before cs rest := by
  cases cs with
  | nil => exact absurd rfl hne
  | cons c cs =>
    rw [wordsIn, if_pos h]
    exact Nat.le_add_right _ _

/-- Behind the keyword `CASE` one more is passed. -/
theorem choicesIn_case {depth count : Nat} {bare : List Char} {nodes : List (Tree Rule)}
    (hs : s.Holds depth count bare (cs ++ after)) (hapart : s.apart = true)
    (hafter : ∀ c ∈ after.head?, isAscii c = true)
    (hread : grammar.Reads true (.once (Rule.body (.keyword "CASE"))) before cs after nodes) :
    1 ≤ wordsIn "case".toList bare.getLast? cs (uncommented after) := by
  obtain ⟨hcs, hname⟩ := reads_keyword hread
  have hlower : cs.map asciiLower = "case".toList := hcs
  obtain ⟨c, rest, rfl⟩ : ∃ c rest, cs = c :: rest := by
    cases cs with
    | nil => cases hcs
    | cons c rest => exact ⟨c, rest, rfl⟩
  have hletter : isNameChar c = true := by
    have halpha := isAlpha_of_mem hcs (List.all_eq_true.mp (by decide)) c (by simp)
    simp [isNameChar, halpha]
  have hbefore : isOpenSide bare.getLast? = true := by
    rcases hs.apart hapart with h | h
    · exact h
    · rw [h c rfl] at hletter
      cases hletter
  exact le_wordsIn_of_wordAt (by simp)
    (wordAt_append hlower hbefore (isOpenSide_uncommented hafter hname))

theorem openedOn_atomic {r : Rule} (h : r.kind = .atomic) : openedOn [r] = 0 := by
  cases r <;> first | rfl | cases h

theorem ne_case_of_atomic {r : Rule} (h : r.kind = .atomic) : r ≠ .caseExpression := by
  rintro rfl
  cases h

/-- An atomic part needs no bracket and no `CASE` of its owner. -/
theorem Bounded.of_atomic {r owner : Rule} {depth count i : Nat} {bare rest : List Char}
    (hkind : r.kind = .atomic) (hdepth : depth ≤ Scanner.deepest {} bare)
    (hcount : count ≤ choicesIn bare rest) : Bounded depth count owner bare rest (.node r i cs []) := by
  have hpath {path : List Rule} (hp : path ∈ (Tree.node r i cs []).paths) : path = [r] := by
    simpa [Tree.paths] using hp
  refine ⟨fun path hp => ?_, fun path hp => ?_, fun _ => rfl⟩
  · obtain rfl := hpath hp
    rw [openedOn_atomic hkind, Tree.rule, Rule.bracketsBefore, if_pos hkind]
    exact hdepth
  · obtain rfl := hpath hp
    have hnone : [r].count .caseExpression = 0 := by simp [ne_case_of_atomic hkind]
    rw [hnone, Tree.rule, Rule.choicesBefore, if_pos hkind]
    exact hcount

theorem Follows.token {r : Rule} {nodes : List (Tree Rule)} (h : Stance.cross r s = some t)
    (hkind : r.kind = .atomic) (hread : grammar.Reads true (.once r.body) before cs after nodes) :
    Follows s t before cs after [.node r before.length cs nodes] := by
  obtain rfl := hread.nodes_eq_nil
  unfold Stance.cross at h
  split at h
  · rename_i hmay
    obtain ⟨hpart, -⟩ := hmay
    obtain rfl := Option.some.inj h
    have hinert := inert_of_atomic hpart hkind hread
    refine ⟨rfl, hinert.led, fun {depth count bare} hafter hs => ?_⟩
    have hbares : Bares cs after cs := hinert.bares
    have hlevel : Scanner.run {} (bare ++ cs) = ⟨.outside, depth + s.level⟩ := by
      rw [Scanner.run_append, hs.level, hinert.level]
    have hpeak := Nat.le_trans hs.peak (deepest_le_append {} bare cs)
    have hchoices := hs.choices
    rw [hbares.2] at hchoices
    have hsplit := choicesIn_append bare cs (uncommented after)
    refine ⟨cs, hbares, ⟨hlevel, hpeak, ?_, ?_, by simp⟩, ?_⟩
    · -- only the word itself passes one more
      show count + (if r = .keyword "CASE" ∧ s.apart = true then s.choices + 1 else s.choices) ≤ _
      split
      · rename_i hcase
        obtain ⟨rfl, hapart⟩ := hcase
        have hone := choicesIn_case hs hapart hafter hread
        omega
      · omega
    · intro hends
      cases r with
      | keyword w => exact .inr (reads_keyword hread).2
      | _ => first | exact absurd hkind (by decide) | cases hends
    · intro n hn
      obtain rfl := List.mem_singleton.mp hn
      exact .of_atomic hkind (by omega) (by omega)
  · cases h

/-- The brackets along a path are those its first rule opens and those of the rest. -/
theorem openedOn_cons_le {r : Rule} {child : Tree Rule} {q : List Rule} (hq : q ∈ child.paths) :
    openedOn (r :: q) = r.opensBefore child.rule + openedOn q := by
  have hhead := Tree.head_of_mem_paths hq
  cases q with
  | nil => cases hhead
  | cons x q =>
    obtain rfl := Option.some.inj hhead
    rfl

theorem opensBefore_atomic {r part : Rule} (h : part.kind = .atomic) :
    r.opensBefore part = r.opens := by
  have hne : part ≠ .patternElement := by
    rintro rfl
    cases h
  simp [Rule.opensBefore, hne]

/-- A path that leaves an atomic part ends there. -/
theorem paths_of_leaf {t : Tree Rule} (h : t.children = []) {q : List Rule} (hq : q ∈ t.paths) :
    q = [t.rule] := by
  obtain ⟨r, i, cs, ts⟩ := t
  obtain rfl : ts = [] := h
  have hroot : q = [r] := by simpa [Tree.paths] using hq
  exact hroot

/-- What bounds the parts of a rule bounds the rule. -/
theorem Bounded.node {r owner : Rule} {depth count depth' count' i : Nat} {bare rest : List Char}
    (hkind : r.kind = .normal) (hdepth : depth + owner.bracketsBefore r ≤ depth')
    (hcount : count + owner.choicesBefore r ≤ count')
    (hopens : depth' + r.opens ≤ Scanner.deepest {} bare)
    (hchoice : count' + r.choice ≤ choicesIn bare rest)
    (hns : ∀ n ∈ ns, Bounded depth' count' r bare rest n) :
    Bounded depth count owner bare rest (.node r i cs ns) where
  brackets path hpath := by
    suffices h : depth' + openedOn path ≤ Scanner.deepest {} bare by
      show depth + owner.bracketsBefore r + openedOn path ≤ _
      omega
    rcases Tree.mem_paths.mp hpath with ⟨-, rfl⟩ | ⟨child, hchild, q, hq, rfl⟩
    · exact hopens
    · rw [openedOn_cons_le hq]
      have hbound := hns child hchild
      -- An atomic part ends the path, and adds neither a bracket nor a choice.
      by_cases hatomic : child.rule.kind = .atomic
      · rw [paths_of_leaf (hbound.leaf hatomic) hq, openedOn_atomic hatomic,
          opensBefore_atomic hatomic]
        exact hopens
      · have hpart := hbound.brackets q hq
        rw [Rule.bracketsBefore, if_neg hatomic] at hpart
        omega
  choices path hpath := by
    suffices h : count' + path.count .caseExpression ≤ choicesIn bare rest by
      show count + owner.choicesBefore r + path.count .caseExpression ≤ _
      omega
    have hroot (q : List Rule) :
        (r :: q).count .caseExpression = q.count .caseExpression + r.choice := by
      by_cases hr : r = .caseExpression <;> simp [Rule.choice, hr]
    rcases Tree.mem_paths.mp hpath with ⟨-, rfl⟩ | ⟨child, hchild, q, hq, rfl⟩
    · simpa [hroot] using hchoice
    · rw [hroot]
      have hbound := hns child hchild
      by_cases hatomic : child.rule.kind = .atomic
      · rw [paths_of_leaf (hbound.leaf hatomic) hq]
        simpa [ne_case_of_atomic hatomic] using hchoice
      · have hpart := hbound.choices q hq
        rw [Rule.choicesBefore, if_neg hatomic] at hpart
        omega
  leaf hatomic := by
    rw [show (Tree.node r i cs ns).rule = r from rfl, hkind] at hatomic
    cases hatomic

theorem Follows.node {r : Rule} (h : Stance.cross r s = some t) (hkind : r.kind = .normal)
    (hbody : ∀ {u v}, stanceFlow.pass r.body u = some v → Follows u v before cs after ns) :
    Follows s t before cs after [.node r before.length cs ns] := by
  unfold Stance.cross at h
  split at h
  · rename_i hmay
    obtain ⟨hpart, hbrackets, hchoices, hapart, hsettled⟩ := hmay
    obtain rfl := Option.some.inj h
    obtain ⟨v, hpass, hcomplete⟩ := exists_completes hpart hkind
    simp only [Stance.completes, Bool.and_eq_true, beq_iff_eq, decide_eq_true_eq, Bool.or_eq_true,
      Bool.not_eq_true'] at hcomplete
    obtain ⟨⟨⟨⟨hvowner, hvlevel⟩, hvpeak⟩, hvchoice⟩, hvends⟩ := hcomplete
    have hinner := hbody hpass
    refine ⟨rfl, hinner.led, fun {depth count bare} hafter hs => ?_⟩
    -- Inside the rule, depths and words are counted from its own start.
    have henter : (Stance.entering r).Holds (depth + s.level)
        (choicesIn bare (uncommented (cs ++ after))) bare (cs ++ after) := by
      refine ⟨hs.level, ?_, Nat.le_refl _, fun ha => hs.apart (hapart ha),
        fun hslash => hs.settled (hsettled hslash)⟩
      have hrun := depth_run_le_deepest {} bare
      rwa [hs.level] at hrun
    obtain ⟨more, hbares, hv, hns⟩ := hinner.holds hafter henter
    refine ⟨more, hbares, ⟨?_, Nat.le_trans hs.peak (deepest_le_append _ _ _), ?_, ?_, by simp⟩, ?_⟩
    · have hlevel := hv.level
      rw [hvlevel] at hlevel
      exact hlevel
    · have hne : r ≠ .keyword "CASE" := by
        rintro rfl
        cases hkind
      show count + (if r = .keyword "CASE" ∧ s.apart = true then s.choices + 1 else s.choices) ≤ _
      rw [if_neg fun hcase => hne hcase.1]
      exact Nat.le_trans hs.choices (choicesIn_le_append hbares)
    · intro hends
      refine hv.apart (hvends.resolve_left ?_)
      rw [show r.endsWord = true from hends]
      decide
    · intro n hn
      obtain rfl := List.mem_singleton.mp hn
      have hpeak := hv.peak
      have hcount := hv.choices
      refine .node hkind (Nat.add_le_add_left hbrackets _) ?_ ?_ ?_ hns
      · exact Nat.le_trans (Nat.add_le_add_left hchoices _) hs.choices
      · omega
      · omega
  · cases h

/-- **Every reading follows the stances.** -/
theorem follows_respects : stanceFlow.Respects grammar Follows where
  nil := .nil
  append := .append
  meetLeft := .meet_left
  meetRight := .meet_right
  filler := .filler
  sign := .sign
  token h hkind hread := .token h hkind hread
  node h hkind hbody := .node h hkind hbody
  silent {r s} hkind := by
    have hpart : r.isPart = false := by cases r <;> first | rfl | cases hkind
    show Stance.cross r s = none
    rw [Stance.cross, if_neg (by simp [hpart])]

/-! ## Accepted texts -/

/-- The rule for whole queries reads up to the end of the text. -/
theorem after_eq_nil_of_query
    (h : grammar.Reads false (.once (Rule.body .query)) before cs after ns) : after = [] := by
  obtain ⟨_, _, _, _, _, _, rfl, rfl, -, -, h⟩ := h.of_loose_seq
  obtain ⟨_, _, _, _, _, _, rfl, rfl, -, -, h⟩ := h.of_loose_seq
  obtain ⟨_, _, _, _, _, _, rfl, rfl, -, -, h⟩ := h.of_loose_seq
  obtain ⟨_, _, _, _, _, _, rfl, rfl, -, -, h⟩ := h.of_loose_seq
  cases h with
  | bare hr => cases hr with
    | inl hr => cases hr
    | inr hr => cases hr
  | node _ hbody => cases hbody with
    | stop => rfl

/-- **An accepted text is read as a whole.** -/
theorem reads_of_parse {source : List Char} {tree : Tree Rule} (h : parse source = .ok tree) :
    nesting source ≤ maxNesting ∧ ∃ parts, tree = .node .query 0 source parts ∧
      grammar.Reads false (.once (Rule.body .query)) [] source [] parts := by
  unfold parse at h
  split at h
  · cases h
  rename_i hguard
  split at h
  · rename_i later tree' rest hrun
    obtain rfl := Except.ok.inj h
    have hgives : grammar.Gives false (.once (.rule .query)) [] source later (tree' :: rest) :=
      (grammar.runsRead _).run hrun
    obtain ⟨cs, after, rfl, -, hread⟩ := hgives
    generalize hnodes : tree' :: rest = nodes at hread
    cases hread with
    | bare hr => cases hr with
      | inl hr => cases hr
      | inr hr => cases hr
    | node _ hbody =>
      obtain ⟨rfl, -⟩ := List.cons.inj hnodes
      obtain rfl := after_eq_nil_of_query hbody
      rw [List.append_nil] at hguard ⊢
      exact ⟨Nat.le_of_not_lt hguard, _, rfl, hbody⟩
  · cases h

/-- The whole text, with blanks for its comments, leads outside quotes and bounds its tree. -/
theorem bounded_of_parse {source : List Char} {tree : Tree Rule} (h : parse source = .ok tree) :
    ∃ t : Stance, t.Holds 0 0 (uncommented source) [] ∧
      Bounded 0 0 .endOfText (uncommented source) (uncommented []) tree := by
  obtain ⟨-, parts, rfl, hread⟩ := reads_of_parse h
  -- The query is read as if it stood in a rule without brackets and choices.
  let start : Stance := { owner := .endOfText, apart := true, settled := false }
  obtain ⟨t, ht⟩ : ∃ t, stanceFlow.pass (.rule .query) start = some t := by
    refine Option.isSome_iff_exists.mp ?_
    decide +kernel
  have hrule : grammar.Reads false (.once (Peg.rule Rule.query)) [] source []
      [.node .query 0 source parts] := .node (r := Rule.query) (by decide) hread
  have hfollows := Flow.relates follows_respects hrule ht
  have hstart : start.Holds 0 0 [] (source ++ []) :=
    ⟨rfl, Nat.zero_le _, Nat.zero_le _, fun _ => .inl rfl, by simp [start]⟩
  obtain ⟨bare, hbares, hholds, hbound⟩ := hfollows.holds (by simp) hstart
  have hbare : bare = uncommented source := by
    have h := hbares.2
    rw [List.append_nil] at h
    simpa [uncommented, uncommentFrom] using h.symm
  rw [List.nil_append, hbare] at hholds hbound
  exact ⟨t, hholds, hbound _ (List.mem_singleton.mpr rfl)⟩

/-- The quotes of an accepted text, comments left out, are closed at its end. -/
theorem closed_of_parse {source : List Char} {tree : Tree Rule} (h : parse source = .ok tree) :
    modeAfter .outside (uncommented source) = .outside := by
  obtain ⟨t, hholds, -⟩ := bounded_of_parse h
  have hmode := mode_run {} (uncommented source)
  rw [hholds.level] at hmode
  exact hmode.symm

/-- On every path of an accepted text's tree, the levels are at most what the guard counts when
comments are blank. -/
theorem levelsOn_le_nesting {source : List Char} {tree : Tree Rule} (h : parse source = .ok tree)
    {path : List Rule} (hpath : path ∈ tree.paths) :
    levelsOn path ≤ nesting (uncommented source) := by
  obtain ⟨-, -, hbound⟩ := bounded_of_parse h
  have hbrackets := hbound.brackets path hpath
  have hchoices := hbound.choices path hpath
  have hwords : choicesIn (uncommented source) (uncommented []) =
      countWord "case".toList (uncommented source) := wordsIn_nil _ _ _
  have hdepth : maxNestingDepth (uncommented source) = Scanner.deepest {} (uncommented source) := rfl
  rw [nesting, levelsOn, ← hwords, hdepth]
  omega

end Cypher

end QueryScore
