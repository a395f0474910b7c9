/-
# QueryScore.Proofs.Cypher.Search -- a search for keywords follows the grammar

A search for keywords reads the text of a query without its tree. Here the grammar is followed
along the text once more: the state is the number of open brackets, whether a dot was just read,
and whether anything was read at all (`Place`). In a text without comments, a stretch that stays
inside the rules a search is made for ends at the bracket level it began at, ends its words, and
shows the search a keyword only at a label, a relationship type or a property key (`Seeks`).
Which rules may stand in the stretch is decided rule by rule (`Search.Closed`).
-/

import QueryScore.Proofs.Cypher.Nesting
import QueryScore.Proofs.Cypher.Word
import QueryScore.Proofs.Text.Hit
import QueryScore.Proofs.Text.Split

namespace QueryScore.Cypher

open Text Grammar Peg

/-! ## Texts without comments -/

/-- What follows a stretch of a text without comments has none. -/
theorem uncommentFrom_append {m : Mode} {cs after : List Char}
    (h : uncommentFrom 0 m (cs ++ after) = cs ++ after) :
    uncommentFrom 0 (modeAfter m cs) after = after := by
  induction cs generalizing m with
  | nil => exact h
  | cons c cs ih =>
    refine ih ?_
    rw [List.cons_append, uncommentFrom] at h
    split at h
    · exact (List.cons.inj h).2
    · rename_i more hsize
      -- A blanked character is a slash, and stays none.
      obtain ⟨rfl, -⟩ := List.cons.inj h
      split at hsize
      · rw [commentSize_of_ne (by decide)] at hsize
        cases hsize
      · rename_i hno
        cases hsize

/-! ## Searches -/

/-- A search for keywords in stretches of a text. -/
structure Search where
  /-- What is looked for. -/
  keywords : List String
  /-- What does not stand at the top level of such a stretch. -/
  marks : List Char
  /-- Rules that do not stand in such a stretch. -/
  beyond : List Rule
  /-- Names and keywords hold none of the marks. -/
  marks_hidden : (marks.all fun mark => !isPlain mark) = true
  /-- The keywords begin with reserved words. -/
  reserved : ∀ keyword ∈ keywords, leadWord keyword ∈ reservedWords.map String.toList

theorem Search.not_plain (q : Search) : ∀ mark ∈ q.marks, isPlain mark = false := by
  intro mark hmark
  simpa using List.all_eq_true.mp q.marks_hidden mark hmark

/-- The rules for names that may be reserved words. -/
def Rule.isLoose (r : Rule) : Bool := [.labelName, .relTypeName, .propertyKey].contains r

/-- A search finds a keyword at an index of a text. -/
def isHitAt (keywords : List String) (source : List Char) (i : Nat) : Bool :=
  isHit keywords (Scanner.run {} (source.take i)) (source.take i).getLast? (source.drop i)

mutual

/-- At no label, relationship type or property key of a tree a search finds a keyword. -/
def isCalm (keywords : List String) (source : List Char) : Tree Rule → Bool
  | .node r i _ ts => !(r.isLoose && isHitAt keywords source i) && areCalm keywords source ts

/-- It finds none at those of several trees. -/
def areCalm (keywords : List String) (source : List Char) : List (Tree Rule) → Bool
  | [] => true
  | t :: ts => isCalm keywords source t && areCalm keywords source ts

end

theorem areCalm_append {keywords : List String} {source : List Char} (ts us : List (Tree Rule)) :
    areCalm keywords source (ts ++ us) =
      (areCalm keywords source ts && areCalm keywords source us) := by
  induction ts with
  | nil => simp [areCalm]
  | cons t ts ih => simp [areCalm, ih, Bool.and_assoc]

theorem areCalm_iff {keywords : List String} {source : List Char} {ts : List (Tree Rule)} :
    areCalm keywords source ts = true ↔ ∀ t ∈ ts, isCalm keywords source t = true := by
  induction ts with
  | nil => simp [areCalm]
  | cons t ts ih => simp [areCalm, ih]

theorem isHitAt_append {keywords : List String} (before after : List Char) :
    isHitAt keywords (before ++ after) before.length =
      isHit keywords (Scanner.run {} before) before.getLast? after := by
  simp [isHitAt]

/-! ## The grammar along a text -/

/-- What is known at a place inside the body of a rule. -/
structure Place where
  /-- The brackets that the rule has opened and not closed. -/
  level : Nat := 0
  /-- A dot may stand right before the place. -/
  dot : Bool := false
  /-- The rule has read something. -/
  begun : Bool := false
  deriving DecidableEq

/-- The place after a sign. -/
def Place.sign (q : Search) (ws : List Char) (s : Place) : Option Place :=
  if ws ≠ [] ∧ (ws.all fun c => !isNameChar c && !isBlank c && c != '$') = true ∧
      ((ws.all fun c => !q.marks.contains c) = true ∨ s.level ≠ 0 ∧ ws.length = 1) then
    (levelAfter s.level ws).map fun level => ⟨level, ws.getLast? = some '.', true⟩
  else none

/-- The keyword is none of those that are looked for, and none of their beginnings. -/
def Search.passes (q : Search) : Rule → Bool
  | .keyword w => q.keywords.all fun keyword => spelling w ≠ (leadWord keyword).map asciiLower
  | _ => true

/-- The place after a rule. -/
def Place.cross (q : Search) (r : Rule) (s : Place) : Option Place :=
  if r.isPart ∧ r ∉ q.beyond ∧ q.passes r ∧ (r.kind = .normal → s.dot = false ∨ s.level ≠ 0) then
    some { s with dot := r = .rangeLiteral, begun := true }
  else none

/-- What two places have in common. -/
def Place.meet (s t : Place) : Option Place :=
  if s.level = t.level then some ⟨s.level, s.dot || t.dot, s.begun && t.begun⟩ else none

/-- How places change along a stretch for a search. -/
def Search.flow (q : Search) : Flow Rule Place where
  sign := Place.sign q
  cross := Place.cross q
  settle s := s
  meet := Place.meet

/-- **`q.Closed`** -- every rule that may stand in the stretches can be followed from its start to
its end. -/
def Search.Closed (q : Search) : Prop :=
  ∀ r : Rule, r.isPart = true → r.kind = .normal → r ∉ q.beyond →
    q.flow.pass r.body {} = some ⟨0, r = .rangeLiteral, true⟩

/-! ## What a search sees of a stretch -/

/-- **`At depth s before after`** -- the place stands between the texts, in a rule that began at
this bracket depth. -/
structure At (depth : Nat) (s : Place) (before after : List Char) : Prop where
  level : Scanner.run {} before = ⟨.outside, depth + s.level⟩
  bare : uncommented after = after
  ends : depth + s.level = 0 → s.dot = false → Ends before after

/-- **`Seeks q s t before cs after nodes`** -- how the search passes a stretch that leads from one
place to another. -/
structure Seeks (q : Search) (s t : Place) (before cs after : List Char)
    (nodes : List (Tree Rule)) : Prop where
  /-- The stretch leads to the place. -/
  leads : ∀ {depth}, At depth s before (cs ++ after) → At depth t (before ++ cs) after
  /-- No mark stands at the top level. -/
  free : ∀ {depth}, At depth s before (cs ++ after) → Free q.marks (Scanner.run {} before) cs
  /-- Nothing is found, unless at one of the nodes. -/
  quiet : ∀ {depth}, At depth s before (cs ++ after) →
    areCalm q.keywords (before ++ (cs ++ after)) nodes = true →
      Quiet q.keywords (Scanner.run {} before) before.getLast? cs after
  /-- Where no blank can be skipped, the first that is read is no blank. -/
  ink : ∀ {depth}, At depth s before (cs ++ after) → s.begun = false →
    (∀ c ∈ (cs ++ after).head?, isFillerBlank c = false) →
      cs = [] ∧ t.begun = false ∨ ∃ c ∈ cs.head?, isBlank c = false

variable {q : Search} {s t u v : Place} {before cs ds after : List Char} {ns ms : List (Tree Rule)}

theorem Seeks.nil : Seeks q s s before [] after [] where
  leads h := by rwa [List.append_nil]
  free _ := .nil
  quiet _ _ := trivial
  ink _ hbegun _ := .inl ⟨rfl, hbegun⟩

theorem Seeks.append (h₁ : Seeks q s t before cs (ds ++ after) ns)
    (h₂ : Seeks q t u (before ++ cs) ds after ms) :
    Seeks q s u before (cs ++ ds) after (ns ++ ms) where
  leads h := by
    rw [List.append_assoc] at h
    have hu := h₂.leads (h₁.leads h)
    rwa [List.append_assoc] at hu
  free h := by
    rw [List.append_assoc] at h
    refine free_append.mpr ⟨h₁.free h, ?_⟩
    rw [← Scanner.run_append]
    exact h₂.free (h₁.leads h)
  quiet h hcalm := by
    rw [List.append_assoc] at h hcalm
    rw [areCalm_append, Bool.and_eq_true] at hcalm
    refine quiet_append.mpr ⟨h₁.quiet h hcalm.1, ?_⟩
    rw [← Scanner.run_append, ← List.getLast?_append]
    refine h₂.quiet (h₁.leads h) ?_
    rw [List.append_assoc]
    exact hcalm.2
  ink h hbegun hhead := by
    rw [List.append_assoc] at h hhead
    rcases h₁.ink h hbegun hhead with ⟨rfl, ht⟩ | ⟨c, hc, hink⟩
    · have htt := h₁.leads h
      exact h₂.ink htt ht hhead
    · refine .inr ⟨c, ?_, hink⟩
      cases cs with
      | nil => cases hc
      | cons d cs => exact hc

theorem At.weaken {depth : Nat} (h : At depth s before after) (hlevel : t.level = s.level)
    (hdot : t.dot = false → s.dot = false) : At depth t before after where
  level := by rw [hlevel]; exact h.level
  bare := h.bare
  ends htop ht := h.ends (by rwa [← hlevel]) (hdot ht)

/-- What is known may be forgotten. -/
theorem Seeks.weaken (h : Seeks q s t before cs after ns) (hlevel : v.level = t.level)
    (hdot : v.dot = false → t.dot = false) (hbegun : v.begun = true → t.begun = true) :
    Seeks q s v before cs after ns where
  leads hs := (h.leads hs).weaken hlevel hdot
  free := h.free
  quiet := h.quiet
  ink hs hnot hhead := (h.ink hs hnot hhead).imp_left fun ⟨hnil, ht⟩ =>
    ⟨hnil, Bool.eq_false_iff.mpr fun hv => by rw [hbegun hv] at ht; cases ht⟩

theorem Seeks.meet_left (hmeet : Place.meet t u = some v) (h : Seeks q s t before cs after ns) :
    Seeks q s v before cs after ns := by
  unfold Place.meet at hmeet
  split at hmeet
  · obtain rfl := Option.some.inj hmeet
    exact h.weaken rfl (by simp +contextual) (by simp +contextual)
  · cases hmeet

theorem Seeks.meet_right (hmeet : Place.meet t u = some v) (h : Seeks q s u before cs after ns) :
    Seeks q s v before cs after ns := by
  unfold Place.meet at hmeet
  split at hmeet
  · rename_i hsame
    obtain rfl := Option.some.inj hmeet
    exact h.weaken hsame (by simp +contextual) (by simp +contextual)
  · cases hmeet

/-! ## One step along a stretch -/

theorem isBlank_of_isFillerBlank {c : Char} (h : isFillerBlank c = true) :
    isBlank c = true ∧ c.isAlpha = false ∧ isPlain c = true := by
  simp only [isFillerBlank, Bool.or_eq_true, beq_iff_eq] at h
  rcases h with ((rfl | rfl) | rfl) | rfl <;> decide

/-- In a text without comments, filler is blanks. -/
theorem blanks_of_filler {nodes : List (Tree Rule)} (hbare : uncommented (cs ++ after) = cs ++ after)
    (h : grammar.Reads true (.once grammar.filler) before cs after nodes) :
    ∀ c ∈ cs, isFillerBlank c = true := by
  obtain ⟨-, bare, hbares, hblank⟩ := reads_filler h
  have hsplit := hbares.2
  rw [hbare] at hsplit
  obtain ⟨rfl, -⟩ := List.append_inj hsplit hbares.1.symm
  exact hblank

theorem Ends.of_filler (hcs : ∀ c ∈ cs, isFillerBlank c = true) (h : Ends before (cs ++ after)) :
    Ends (before ++ cs) after := by
  cases hlast : cs.getLast? with
  | none =>
    obtain rfl := List.getLast?_eq_none_iff.mp hlast
    simpa using h
  | some c =>
    have hblank := hcs c (List.mem_of_getLast? hlast)
    have hne : cs ≠ [] := by
      rintro rfl
      cases hlast
    simp only [isFillerBlank, Bool.or_eq_true, beq_iff_eq] at hblank
    refine Ends.of_append hne ?_
    rcases hblank with ((rfl | rfl) | rfl) | rfl <;>
      exact ends_of_getLast hlast (by decide) (by decide) (by decide) (by decide)

/-- Filler in a text without comments. -/
theorem Seeks.filler {nodes : List (Tree Rule)}
    (h : grammar.Reads true (.once grammar.filler) before cs after nodes) :
    Seeks q s s before cs after [] where
  leads {depth} hs := by
    have hcs := blanks_of_filler hs.bare h
    have hblank : Blank cs := fun c hc => (isBlank_of_isFillerBlank (hcs c hc)).1
    refine ⟨?_, ?_, fun htop hdot => ?_⟩
    · rw [Scanner.run_append, hs.level, run_blank hblank]
    · have hrest := uncommentFrom_append hs.bare
      have hmode := congrArg Scanner.mode (run_blank hblank 0)
      rw [mode_run] at hmode
      rwa [hmode] at hrest
    · -- Blanks end a word; without them the place is the same.
      exact (hs.ends htop hdot).of_filler hcs
  free hs := by
    have hcs := blanks_of_filler hs.bare h
    rw [hs.level]
    refine free_of_shown (shown_of_forall fun c hc hmark => ?_)
    have hplain := (isBlank_of_isFillerBlank (hcs c hc)).2.2
    rw [q.not_plain c hmark] at hplain
    cases hplain
  quiet hs _ := by
    have hcs := blanks_of_filler hs.bare h
    rw [hs.level]
    exact (startless_of_not_isAlpha fun c hc => (isBlank_of_isFillerBlank (hcs c hc)).2.1).quiet _
  ink hs hbegun hhead := by
    refine .inl ⟨?_, hbegun⟩
    cases cs with
    | nil => rfl
    | cons c cs =>
      have hc := blanks_of_filler hs.bare h c (by simp)
      rw [hhead c rfl] at hc
      cases hc

theorem Seeks.sign {ws : List Char} (h : Place.sign q ws s = some t) :
    Seeks q s t before ws after [] := by
  unfold Place.sign at h
  split at h
  · rename_i hws
    obtain ⟨hne, hall, hmarks⟩ := hws
    have hchars : ∀ c ∈ ws, isNameChar c = false ∧ isBlank c = false ∧ c ≠ '$' := by
      simpa [List.all_eq_true, and_assoc] using hall
    obtain ⟨level, hlevel, rfl⟩ := Option.map_eq_some_iff.mp h
    obtain ⟨hascii, hmode, hrun⟩ := of_levelAfter hlevel
    refine ⟨fun {depth} hs => ⟨?_, ?_, fun _ hdot => ?_⟩, fun {depth} hs => ?_, fun hs _ => ?_,
      fun _ _ _ => .inr ?_⟩
    · rw [Scanner.run_append, hs.level, hrun]
    · have hrest := uncommentFrom_append hs.bare
      rwa [hmode] at hrest
    · refine Ends.of_append hne fun c hc => ?_
      obtain ⟨hname, -, hdollar⟩ := hchars c (List.mem_of_getLast? hc)
      refine ⟨hascii c (List.mem_of_getLast? hc), hdollar, ?_, fun hc' => by simp [hname] at hc'⟩
      rintro rfl
      simp only [decide_eq_false_iff_not] at hdot
      exact hdot hc
    · rw [hs.level]
      -- A sign that is a mark of the search stands below the top level and is one character long.
      rcases hmarks with hmarks | ⟨hdeep, hone⟩
      · exact free_of_shown (shown_of_forall (by simpa using hmarks))
      · obtain ⟨c, rfl⟩ := List.length_eq_one_iff.mp hone
        intro x hx htop
        obtain rfl := List.mem_singleton.mp hx
        simp [Scanner.isTop, hdeep] at htop
    · rw [hs.level]
      refine Startless.quiet (startless_of_not_isAlpha fun c hc => ?_) _
      rw [Bool.eq_false_iff]
      intro halpha
      have hname := (hchars c hc).1
      rw [isNameChar_of_isAlpha halpha] at hname
      cases hname
    · cases ws with
      | nil => exact absurd rfl hne
      | cons c ws => exact ⟨c, rfl, (hchars c (by simp)).2.1⟩
  · cases h

/-- A token is quiet if its own word is no hit. -/
theorem Led.quiet {p : List Char → Prop} {keywords : List String} {depth : Nat}
    {prev : Option Char} (h : Led p cs after)
    (hword : ∀ word more, cs = word ++ more → PlainName word → p word →
      (∀ c ∈ (more ++ after).head?, isNameChar c = false) →
        isHit keywords ⟨.outside, depth⟩ prev (word ++ (more ++ after)) = false) :
    Quiet keywords ⟨.outside, depth⟩ prev cs after := by
  cases h with
  | @word word more hcs hplain hp hafter hmore =>
    have hfirst := hword word more hcs hplain hp hafter
    subst hcs
    have hclosed : Scanner.run ⟨.outside, depth⟩ word = ⟨.outside, depth⟩ :=
      (Inert.of_isPlain fun c hc => isPlain_of_isNameChar (hplain.chars c hc)).level depth
    -- Inside the name no word begins, and behind it the token holds none.
    refine quiet_append.mpr ⟨?_, ?_⟩
    · obtain ⟨c, word, rfl⟩ := List.exists_cons_of_ne_nil hplain.ne_nil
      refine ⟨hfirst, Startless.quiet (startless_of_isIdentifierChar ?_ fun d hd => ?_) _⟩
      · exact (isIdentifierChar_of_isNameChar (hplain.chars c (by simp))).1
      · exact (isIdentifierChar_of_isNameChar (hplain.chars d (by simp [hd]))).1
    · rw [hclosed, List.getLast?_eq_some_getLast hplain.ne_nil, Option.some_or,
        ← List.getLast?_eq_some_getLast hplain.ne_nil]
      exact hmore.quiet depth
  | @other c tail hcs hc _ htail =>
    subst hcs
    exact ⟨by simp [isHit, not_isWordStart_of_not_isAlpha hc], htail.quiet _⟩

theorem Led.head {p : List Char → Prop} (h : Led p cs after) :
    ∃ c ∈ cs.head?, isBlank c = false := by
  cases h with
  | @word word more hcs hplain _ _ _ =>
    subst hcs
    obtain ⟨c, word, rfl⟩ := List.exists_cons_of_ne_nil hplain.ne_nil
    exact ⟨c, rfl, (isIdentifierChar_of_isNameChar (hplain.chars c (by simp))).2⟩
  | @other c tail hcs _ hblank _ =>
    subst hcs
    exact ⟨c, rfl, hblank⟩

/-- The word that a token begins with is none of the keywords, unless it is one of the names that
may be reserved words. -/
theorem ne_leadWord_of_tokenWord {r : Rule} {word : List Char} (hr : r.isLoose = false)
    (hpass : q.passes r = true) (hword : r.tokenWord word) {keyword : String}
    (hkeyword : keyword ∈ q.keywords) :
    word.map asciiLower ≠ (leadWord keyword).map asciiLower := by
  have hfree (h : Unreserved word) : word.map asciiLower ≠ (leadWord keyword).map asciiLower := by
    obtain ⟨w, hw, heq⟩ := List.mem_map.mp (q.reserved keyword hkeyword)
    rw [← heq]
    exact h w hw
  cases r with
  | keyword w =>
    have hall := List.all_eq_true.mp hpass keyword hkeyword
    rw [show word.map asciiLower = spelling w from hword]
    simpa using hall
  | labelName | relTypeName | propertyKey => cases hr
  | _ => exact hfree hword

theorem isAlpha_of_mem_leadWord {keyword : String} (h : keyword ∈ q.keywords) :
    leadWord keyword ≠ [] ∧ ∀ c ∈ leadWord keyword, c.isAlpha = true := by
  obtain ⟨w, hw, heq⟩ := List.mem_map.mp (q.reserved keyword h)
  rw [← heq]
  exact isAlpha_of_mem_reservedWords w hw

theorem not_isAlpha_of_not_isNameChar {c : Char} (h : isNameChar c = false) : c.isAlpha = false := by
  rw [Bool.eq_false_iff]
  intro halpha
  rw [isNameChar_of_isAlpha halpha] at h
  cases h

theorem Seeks.token {r : Rule} {nodes : List (Tree Rule)} (h : Place.cross q r s = some t)
    (hkind : r.kind = .atomic) (hread : grammar.Reads true (.once r.body) before cs after nodes) :
    Seeks q s t before cs after [.node r before.length cs nodes] := by
  unfold Place.cross at h
  split at h
  · rename_i hmay
    obtain ⟨hpart, -, hpass, -⟩ := hmay
    obtain rfl := Option.some.inj h
    have hinert := inert_of_atomic hpart hkind hread
    obtain ⟨hled, hends⟩ := reads_token hpart hkind hread
    obtain ⟨c, hc, hblank⟩ := hled.head
    have hne : cs ≠ [] := by
      rintro rfl
      cases hc
    refine ⟨fun {depth} hs => ⟨?_, ?_, fun _ _ => hends.of_append hne⟩, fun hs => ?_,
      fun {depth} hs hcalm => ?_, fun _ _ _ => .inr ⟨c, hc, hblank⟩⟩
    · rw [Scanner.run_append, hs.level, hinert.level]
    · have hrest := uncommentFrom_append hs.bare
      rwa [hinert.closed] at hrest
    · rw [hs.level]
      refine free_of_shown (hinert.plain.mono fun c hc hmark => ?_)
      rw [q.not_plain c hmark] at hc
      cases hc
    · rw [hs.level]
      refine hled.quiet fun word more hsplit hplain hword hafter => ?_
      cases hloose : r.isLoose with
      | true =>
        -- At a label, a type or a key the search is said to find nothing.
        rw [areCalm, isCalm, hloose, isHitAt_append, hs.level] at hcalm
        simp only [Bool.true_and, Bool.and_eq_true, Bool.not_eq_true'] at hcalm
        rw [← List.append_assoc, ← hsplit]
        exact hcalm.1.1
      | false =>
        refine not_isHit_of_word (fun c hc => isIdentifierChar_of_isNameChar (hplain.chars c hc))
          (fun c hc => not_isAlpha_of_not_isNameChar (hafter c hc)) fun keyword hkeyword => ?_
        obtain ⟨hlead, halpha⟩ := isAlpha_of_mem_leadWord hkeyword
        exact ⟨hlead, halpha, ne_leadWord_of_tokenWord hloose hpass hword hkeyword⟩
  · cases h

theorem Seeks.node {r : Rule} (hclosed : q.Closed) (h : Place.cross q r s = some t)
    (hkind : r.kind = .normal)
    (hbody : ∀ {u v}, q.flow.pass r.body u = some v → Seeks q u v before cs after ns) :
    Seeks q s t before cs after [.node r before.length cs ns] := by
  unfold Place.cross at h
  split at h
  · rename_i hmay
    obtain ⟨hpart, hinside, -, hdot⟩ := hmay
    obtain rfl := Option.some.inj h
    have hinner := hbody (hclosed r hpart hkind hinside)
    -- Inside the rule, levels are counted from its own start.
    have henter {depth : Nat} (hs : At depth s before (cs ++ after)) :
        At (depth + s.level) {} before (cs ++ after) :=
      ⟨hs.level, hs.bare, fun htop _ =>
        hs.ends htop ((hdot hkind).resolve_right (by simp at htop; omega))⟩
    have hloose : r.isLoose = false := by
      cases r <;> first | rfl | cases hkind
    refine ⟨fun hs => ?_, fun hs => hinner.free (henter hs), fun hs hcalm => ?_,
      fun hs _ hhead => ?_⟩
    · have ht := hinner.leads (henter hs)
      exact ⟨ht.level, ht.bare, ht.ends⟩
    · refine hinner.quiet (henter hs) ?_
      rw [areCalm, isCalm, hloose] at hcalm
      simpa [areCalm] using hcalm
    · rcases hinner.ink (henter hs) rfl hhead with ⟨-, hnot⟩ | hink
      · cases hnot
      · exact .inr hink
  · cases h

/-- **Every reading inside the rules of a search is passed by it.** -/
theorem seeks_respects (hclosed : q.Closed) : q.flow.Respects grammar (Seeks q) where
  nil := .nil
  append := .append
  meetLeft := .meet_left
  meetRight := .meet_right
  filler := .filler
  sign := .sign
  token h hkind hread := .token h hkind hread
  node h hkind hbody := .node hclosed h hkind hbody
  silent {r s} hkind := by
    have hpart : r.isPart = false := by cases r <;> first | rfl | cases hkind
    show Place.cross q r s = none
    rw [Place.cross, if_neg (by simp [hpart])]

/-! ## The searches that read the first `RETURN` -/

/-- The search for the `RETURN` itself, in the clauses before it. -/
def returnSearch : Search where
  keywords := ["RETURN"]
  marks := []
  beyond := [.query, .singleQuery, .returnClause, .endOfText]
  marks_hidden := by decide
  reserved := by decide

/-- The search for the end of the returned list, in the list. -/
def boundarySearch : Search where
  keywords := ["ORDER BY", "SKIP", "LIMIT", "UNION"]
  marks := [';']
  beyond := [.query, .union, .singleQuery, .endOfText, .withClause, .returnClause, .projectionBody,
    .orderClause, .skipClause, .limitClause]
  marks_hidden := by decide
  reserved := by decide

/-- The search for the end of the sort keys, in the list of keys. -/
def sortSearch : Search where
  keywords := ["SKIP", "LIMIT", "UNION"]
  marks := [';']
  beyond := [.query, .union, .singleQuery, .endOfText, .withClause, .returnClause, .projectionBody,
    .orderClause, .skipClause, .limitClause]
  marks_hidden := by decide
  reserved := by decide

/-- The search for an alias, in the expression of a returned item. -/
def aliasSearch : Search where
  keywords := ["AS"]
  marks := [',', ';']
  beyond := [.query, .union, .singleQuery, .endOfText, .matchClause, .unwindClause, .withClause,
    .returnClause, .projectionBody, .projectionItems, .projectionItem, .orderClause, .pattern]
  marks_hidden := by decide
  reserved := by decide

/-- The search for nothing but the marks of a list, in its items. -/
def itemSearch : Search where
  keywords := []
  marks := [',', ';']
  beyond := [.query, .union, .singleQuery, .endOfText, .matchClause, .unwindClause, .withClause,
    .returnClause, .projectionBody, .projectionItems, .orderClause, .pattern]
  marks_hidden := by decide
  reserved := by decide

/-- Whether a search is closed is decided rule by rule. -/
theorem Search.closed_of_all (q : Search) (hall : (normalRules.all fun r => !r.isPart ||
      q.beyond.contains r || q.flow.pass r.body {} == some ⟨0, r = .rangeLiteral, true⟩) = true) :
    q.Closed := by
  intro r hpart hkind hinside
  have hr := of_normalRules hall hkind
  simpa [hpart, hinside] using hr

theorem returnSearch_closed : returnSearch.Closed := returnSearch.closed_of_all (by decide)

theorem boundarySearch_closed : boundarySearch.Closed := boundarySearch.closed_of_all (by decide)

theorem sortSearch_closed : sortSearch.Closed := sortSearch.closed_of_all (by decide)

theorem aliasSearch_closed : aliasSearch.Closed := aliasSearch.closed_of_all (by decide)

theorem itemSearch_closed : itemSearch.Closed := itemSearch.closed_of_all (by decide)

end QueryScore.Cypher
