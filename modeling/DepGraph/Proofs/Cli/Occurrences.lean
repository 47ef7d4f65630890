import DepGraph.Proofs.Cli.Parts
import DepGraph.Proofs.Except

/-!
# Which batch files are loaded

Reading the words of a level collects every batch file that is named among them, in the order
of the words (`DepGraph.Cli.Progress.Collects`): a step of reading accounts for the parts that
its word adds, and a value that is still pending counts as collected, since it will be dealt
with before anything else happens. The parts before the verb and those after it are collected
apart, and the two lists are never joined. If there are batch files after the verb, those before
it are not loaded (`DepGraph.Cli.Invocation.batches_ofArguments`).
-/

namespace DepGraph.Cli

/-! ### Taking options -/

namespace Given

variable {g g' : Given}

/-- The value of an option is collected if the option is the one for batch files. -/
theorem batches_takeValue {value : String} {o : Opt} (h : g.takeValue value o = .ok g') :
    g'.batches = g.batches ++ batchesAmong [.value o value] := by
  cases o with
  | batch =>
    obtain ⟨name, hname, hg'⟩ := bind_eq_ok.mp h
    rw [nonEmpty] at hname
    split at hname
    · cases hname
    · obtain rfl := Except.ok.inj hname
      obtain rfl := Except.ok.inj hg'
      rfl
  | config =>
    rw [takeValue] at h
    split at h
    · cases h
    · obtain ⟨-, -, h⟩ := bind_eq_ok.mp h
      obtain ⟨name, -, hg'⟩ := bind_eq_ok.mp h
      obtain rfl := Except.ok.inj hg'
      exact (List.append_nil _).symm
  | depth =>
    rw [takeValue] at h
    split at h
    · cases h
    · split at h
      · obtain rfl := Except.ok.inj h
        exact (List.append_nil _).symm
      · cases h
  | json | verbose | failOnCycles | help | version =>
    obtain rfl := Except.ok.inj h
    exact (List.append_nil _).symm

theorem batches_takeFlag {level : Level} {o : Opt} (h : g.takeFlag level o = .ok g') :
    g'.batches = g.batches := by
  cases o with
  | json | failOnCycles =>
    rw [takeFlag] at h
    split at h
    · cases h
    · obtain rfl := Except.ok.inj h
      rfl
  | verbose | batch | config | depth =>
    obtain rfl := Except.ok.inj h
    rfl
  | help | version => cases h

end Given

/-! ### Reading words -/

namespace Progress

/-- The batch files that have been read, the pending one included. -/
def collected (p : Progress) : List String :=
  p.given.batches ++
    match p.pending with
    | some (o, some value) => batchesAmong [.value o value]
    | _ => []

variable {p p' : Progress} {l : Level}

/-- What is pending is collected when it is dealt with, and it must not lack its value. -/
theorem resolved_eq_ok {g : Given} (h : p.resolved = .ok g) :
    p.awaiting = none ∧ g.batches = p.collected := by
  obtain ⟨given, pending, onlyOperands⟩ := p
  rcases pending with _ | ⟨o, _ | value⟩
  · obtain rfl := Except.ok.inj h
    exact ⟨rfl, (List.append_nil _).symm⟩
  · cases h
  · exact ⟨rfl, Given.batches_takeValue h⟩

theorem resolve_eq_ok (h : p.resolve = .ok p') :
    p.awaiting = none ∧ p'.given.batches = p.collected ∧ p'.pending = none ∧
      p'.onlyOperands = p.onlyOperands := by
  obtain ⟨g, hg, hp'⟩ := bind_eq_ok.mp h
  obtain rfl := Except.ok.inj hp'
  exact ⟨(resolved_eq_ok hg).1, (resolved_eq_ok hg).2, rfl, rfl⟩

/-- **Reading what is said in a word**: its parts are collected, and the value of an option may
be awaited afterwards. -/
structure Reads (p p' : Progress) (s : Spelling) : Prop where
  /-- No value was awaited. -/
  idle : p.awaiting = none
  collected : p'.collected = p.collected ++ batchesAmong s.parts
  awaiting : p'.awaiting = s.awaits
  onlyOperands : p'.onlyOperands = p.onlyOperands

/-- Reading is done at once, or all that is left is to await a value. -/
theorem reads_of_resolve {q : Progress} {s : Spelling} (hq : p.resolve = .ok q)
    (hgiven : p'.given.batches = q.given.batches ++ batchesAmong s.parts)
    (hpending : p'.pending = s.awaits.map fun o => (o, none))
    (honly : p'.onlyOperands = q.onlyOperands) : Reads p p' s := by
  obtain ⟨hidle, hbatches, -, honly'⟩ := resolve_eq_ok hq
  refine ⟨hidle, ?_, ?_, honly.trans honly'⟩
  · rw [collected, hpending, hgiven, hbatches]
    rcases s.awaits with _ | o <;> exact List.append_nil _
  · rw [Progress.awaiting, hpending]
    rcases s.awaits with _ | o <;> rfl

/-- An option with a value is read, with the value or without. -/
theorem reads_readValued {o : Opt} {text : Option String} (h : p.readValued o text = .ok p') :
    Reads p p' (.ofValued o text) := by
  obtain ⟨q, hq, h⟩ := bind_eq_ok.mp h
  obtain ⟨-, -, hpending, -⟩ := resolve_eq_ok hq
  rcases text with _ | text
  · obtain rfl := Except.ok.inj h
    exact reads_of_resolve hq (List.append_nil _).symm rfl rfl
  · obtain ⟨g, hg, hp'⟩ := bind_eq_ok.mp h
    obtain rfl := Except.ok.inj hp'
    exact reads_of_resolve hq (Given.batches_takeValue hg) hpending rfl

theorem reads_readFlag {o : Opt} (h : p.readFlag l o = .ok p') : Reads p p' .flags := by
  obtain ⟨q, hq, h⟩ := bind_eq_ok.mp h
  obtain ⟨-, -, hpending, -⟩ := resolve_eq_ok hq
  obtain ⟨g, hg, hp'⟩ := bind_eq_ok.mp h
  obtain rfl := Except.ok.inj hp'
  have hbatches := (Given.batches_takeFlag hg).trans (List.append_nil _).symm
  exact reads_of_resolve hq hbatches hpending rfl

/-- An operand is read. There is no place for one before the verb. -/
theorem reads_readOperand {word : String} (h : p.readOperand l word = .ok p') :
    Reads p p' (.operand word) ∧ l ≠ .top := by
  rw [readOperand.eq_def] at h
  split at h
  · next hlt =>
    obtain ⟨q, hq, h⟩ := bind_eq_ok.mp h
    obtain ⟨-, -, hpending, -⟩ := resolve_eq_ok hq
    obtain rfl := Except.ok.inj h
    refine ⟨reads_of_resolve hq (List.append_nil _).symm hpending rfl, ?_⟩
    rintro rfl
    exact absurd hlt (Nat.not_lt_zero _)
  · rcases l with _ | verb
    · dsimp only at h
      split at h <;> cases h
    · cases h

theorem reads_readLong {name : String} {text : Option String}
    (h : p.readLong l name text = .ok p') : Reads p p' (.ofLong name text) := by
  rw [readLong] at h
  rcases hname : l.ofLongName? name with _ | o <;> rw [hname] at h
  · cases h
  · have hvalued := Level.valuedByName?_eq hname
    dsimp only at h
    by_cases htakes : o.takesValue
    · rw [if_pos htakes] at h hvalued
      rw [Spelling.ofLong, hvalued]
      exact reads_readValued h
    · rw [if_neg htakes] at h hvalued
      rw [Spelling.ofLong, hvalued]
      split at h
      · cases h
      · exact reads_readFlag h

/-- Flags may stand before whatever else there is in a word. -/
theorem Reads.of_flags {q : Progress} {s : Spelling} (h : Reads p q .flags) (h' : Reads q p' s) :
    Reads p p' s := by
  refine ⟨h.idle, ?_, h'.awaiting, h'.onlyOperands.trans h.onlyOperands⟩
  rw [h'.collected, h.collected]
  exact congrArg (· ++ _) (List.append_nil _)

theorem reads_readLetters {letters : List Char} (hne : letters ≠ [])
    (h : readLetters l p letters = .ok p') : Reads p p' (.ofLetters letters) := by
  induction letters generalizing p with
  | nil => exact absurd rfl hne
  | cons c rest ih =>
    rw [readLetters.eq_def] at h
    dsimp only at h
    rcases hletter : l.ofLetter? c with _ | o <;> rw [hletter] at h
    · cases h
    · have hvalued := Level.valuedByLetter?_eq hletter
      dsimp only at h
      by_cases htakes : o.takesValue
      · rw [if_pos htakes] at h hvalued
        rw [Spelling.ofLetters, hvalued]
        exact reads_readValued h
      · rw [if_neg htakes] at h hvalued
        rw [Spelling.ofLetters, hvalued]
        obtain ⟨q, hq, h⟩ := bind_eq_ok.mp h
        have hflag := reads_readFlag hq
        rcases rest with _ | ⟨d, rest⟩
        · obtain rfl := Except.ok.inj h
          exact hflag
        · exact hflag.of_flags (ih (List.cons_ne_nil _ _) h)

/-- **Reading a word that is not awaited as a value**: the word is the separator, or what it says
is read. Before the verb it is no operand. -/
theorem reads_read {word : String} (hidle : p.awaiting = none) (hoptions : p.onlyOperands = false)
    (h : p.read l word = .ok p') :
    Spelling.ofWord word = .separator ∧ p' = { p with onlyOperands := true } ∨
      Reads p p' (Spelling.ofWord word) ∧
        ((Spelling.ofWord word).IsOption ∨ Spelling.ofWord word = .operand word ∧ l ≠ .top) := by
  rw [read, hoptions] at h
  simp only [Bool.false_eq_true, if_false, hidle] at h
  rw [Spelling.ofWord_eq_ofShape]
  rcases hshape : Shape.ofWord word with _ | ⟨name, text⟩ | letters | _ <;> rw [hshape] at h
  · exact Or.inl ⟨rfl, (Except.ok.inj h).symm⟩
  · exact Or.inr ⟨reads_readLong h, Or.inl (Spelling.isOption_ofLong name text)⟩
  · exact Or.inr ⟨reads_readLetters (Shape.letters_ne_nil hshape) h,
      Or.inl (Spelling.isOption_ofLetters letters)⟩
  · rw [readPlain, hidle] at h
    obtain ⟨hreads, htop⟩ := reads_readOperand h
    exact Or.inr ⟨hreads, Or.inr ⟨rfl, htop⟩⟩

/-- **Reading a word that is awaited as a value** makes it the value, unless it is the
separator. -/
theorem read_awaited {word : String} {o : Opt} (hawaits : p.awaiting = some o)
    (hoptions : p.onlyOperands = false) (h : p.read l word = .ok p') :
    p' = { p with onlyOperands := true } ∨ p' = { p with pending := some (o, some word) } := by
  rw [read, hoptions] at h
  simp only [Bool.false_eq_true, if_false, hawaits] at h
  have hplain : p.readPlain l word = .ok p' → p' = { p with pending := some (o, some word) } := by
    intro hread
    rw [readPlain, hawaits] at hread
    exact (Except.ok.inj hread).symm
  rcases hshape : Shape.ofWord word with _ | ⟨name, text⟩ | letters | _ <;> rw [hshape] at h
  · exact Or.inl (Except.ok.inj h).symm
  · exact absurd (reads_readLong h).idle (by simp [hawaits])
  · dsimp only at h
    split at h
    · exact Or.inr (hplain h)
    · exact absurd (reads_readLetters (Shape.letters_ne_nil hshape) h).idle (by simp [hawaits])
  · exact Or.inr (hplain h)

/-- **What reading a word adds to what is collected**: some parts, among which there are no
operands before the verb. -/
structure Collects (l : Level) (p p' : Progress) (word : String) (ps : List Part) : Prop where
  parts_eq : ∀ words, parts p.awaiting (word :: words) = ps ++ parts p'.awaiting words
  collected : p'.collected = p.collected ++ batchesAmong ps
  onlyOperands : p'.onlyOperands = false
  notMem : l = .top → ∀ w, .operand w ∉ ps

/-- Reading a word collects its parts, unless it is two dashes. -/
theorem collects_read {word : String} (hoptions : p.onlyOperands = false)
    (h : p.read l word = .ok p') :
    (p' = { p with onlyOperands := true } ∧
        (p.awaiting = none → Spelling.ofWord word = .separator)) ∨
      ∃ ps, Collects l p p' word ps := by
  rcases hawaits : p.awaiting with _ | o
  · rcases reads_read hawaits hoptions h with ⟨hword, hp'⟩ | ⟨hreads, hsaid⟩
    · exact Or.inl ⟨hp', fun _ => hword⟩
    · have hword : Spelling.ofWord word ≠ .separator := by
        rintro hword
        rw [hword] at hsaid
        rcases hsaid with hsaid | ⟨hsaid, -⟩
        · exact hsaid
        · cases hsaid
      refine Or.inr ⟨_, fun words => ?_, hreads.collected, hreads.onlyOperands.trans hoptions,
        fun hl w => ?_⟩
      · rw [hawaits, parts_cons hword, hreads.awaiting]
      · rcases hsaid with hsaid | ⟨-, htop⟩
        · exact hsaid.operand_notMem w
        · exact absurd hl htop
  -- the word is a value, whatever it looks like
  · rcases read_awaited hawaits hoptions h with hp' | hp'
    · refine Or.inl ⟨hp', ?_⟩
      rintro ⟨⟩
    · refine Or.inr ⟨[.value o word], fun words => ?_, ?_, ?_, fun _ w hmem => ?_⟩
      · rw [hawaits, hp']
        rfl
      · have hpending : p.pending = some (o, none) := by
          rw [awaiting] at hawaits
          split at hawaits
          · next hpending => rw [hpending, Option.some.inj hawaits]
          · cases hawaits
        rw [hp', collected, collected, hpending]
        exact congrArg (· ++ _) (List.append_nil _).symm
      · rw [hp']
        exact hoptions
      · cases List.mem_singleton.mp hmem

/-! ### Reading a level -/

/-- Where only operands follow, nothing is collected any more, and no value may be awaited. -/
theorem batches_of_onlyOperands {g : Given} {words : List String}
    (hoperands : p.onlyOperands = true) (h : words.foldlM (read l) p = .ok p')
    (hg : p'.resolved = .ok g) :
    p.awaiting = none ∧ g.batches = p.collected := by
  induction words generalizing p with
  | nil =>
    obtain rfl := Except.ok.inj h
    exact resolved_eq_ok hg
  | cons word words ih =>
    rw [List.foldlM_cons] at h
    obtain ⟨q, hq, h⟩ := bind_eq_ok.mp h
    rw [read, if_pos hoperands] at hq
    obtain ⟨hreads, -⟩ := reads_readOperand hq
    refine ⟨hreads.idle, ?_⟩
    rw [(ih (hreads.onlyOperands.trans hoperands) h).2, hreads.collected]
    exact List.append_nil _

/-- **Reading a level collects the batch files that are named there**, in their order. -/
theorem batches_of_read {g : Given} {words : List String} (hoptions : p.onlyOperands = false)
    (h : words.foldlM (read l) p = .ok p') (hg : p'.resolved = .ok g) :
    g.batches = p.collected ++ batchesAmong (parts p.awaiting words) := by
  induction words generalizing p with
  | nil =>
    obtain rfl := Except.ok.inj h
    rw [(resolved_eq_ok hg).2, parts]
    exact (List.append_nil _).symm
  | cons word words ih =>
    rw [List.foldlM_cons] at h
    obtain ⟨q, hq, h⟩ := bind_eq_ok.mp h
    rcases collects_read hoptions hq with ⟨rfl, hword⟩ | ⟨ps, hcollects⟩
    -- after the two dashes everything is an operand, and so are its parts
    · obtain ⟨hidle, hbatches⟩ := batches_of_onlyOperands rfl h hg
      have hidle : p.awaiting = none := hidle
      rw [hidle, parts_of_separator (hword hidle), batchesAmong_map_operand, List.append_nil]
      exact hbatches
    · rw [ih hcollects.onlyOperands h, hcollects.collected, hcollects.parts_eq, List.append_assoc,
        ← batchesAmong_append]

end Progress

/-! ### The verb -/

theorem Verb.name_of_ofName? {word : String} {verb : Verb} (h : Verb.ofName? word = some verb) :
    verb.name = word := by
  simpa using List.find?_some h

/-- A verb is an operand of the command line. -/
theorem Verb.spelling_name (verb : Verb) : Spelling.ofWord verb.name = .operand verb.name := by
  cases verb <;> decide +kernel

/-- Where only operands follow there is no verb. -/
theorem readTop_ne_of_onlyOperands {p p' : Progress} {verb : Verb} {words inner : List String}
    (hoperands : p.onlyOperands = true) : readTop p words ≠ .ok (p', some (verb, inner)) := by
  intro h
  rcases words with _ | ⟨word, words⟩
  · cases h
  · rw [readTop, hoperands] at h
    simp only [Bool.not_true, Bool.false_and, Bool.false_eq_true, if_false] at h
    obtain ⟨q, hq, -⟩ := bind_eq_ok.mp h
    rw [Progress.read, if_pos hoperands] at hq
    exact (Progress.reads_readOperand hq).2 rfl

/-- **Reading up to the verb collects the batch files that are named before it.** The verb is the
first operand of the command line. -/
theorem batches_of_readTop {p p' : Progress} {g : Given} {verb : Verb} {words inner : List String}
    (hoptions : p.onlyOperands = false) (h : readTop p words = .ok (p', some (verb, inner)))
    (hg : p'.resolved = .ok g) :
    ∃ outer, parts p.awaiting words = outer ++ .operand verb.name :: parts none inner ∧
      (∀ w, .operand w ∉ outer) ∧ g.batches = p.collected ++ batchesAmong outer := by
  induction words generalizing p with
  | nil => cases h
  | cons word words ih =>
    rw [readTop, hoptions] at h
    simp only [Bool.not_false, Bool.true_and] at h
    split at h
    · cases h
    split at h
    -- a verb that is not awaited as a value
    · next verb' hverb =>
      obtain ⟨rfl, hrest⟩ := Prod.mk.inj (Except.ok.inj h)
      obtain ⟨rfl, rfl⟩ := Prod.mk.inj (Option.some.inj hrest)
      split at hverb
      · next hidle =>
        have hidle : p.awaiting = none := by simpa using hidle
        obtain rfl := Verb.name_of_ofName? hverb
        refine ⟨[], ?_, fun _ => List.not_mem_nil, ?_⟩
        · have hword : Spelling.ofWord verb'.name ≠ .separator := by
            rw [verb'.spelling_name]
            rintro ⟨⟩
          rw [hidle, parts_cons hword, verb'.spelling_name]
          rfl
        · rw [(Progress.resolved_eq_ok hg).2]
          exact (List.append_nil _).symm
      · cases hverb
    · obtain ⟨q, hq, h⟩ := bind_eq_ok.mp h
      rcases Progress.collects_read hoptions hq with ⟨rfl, -⟩ | ⟨ps, hcollects⟩
      -- no verb is found after two dashes
      · exact absurd h (readTop_ne_of_onlyOperands rfl)
      · obtain ⟨outer, hparts, houter, hbatches⟩ := ih hcollects.onlyOperands h
        refine ⟨ps ++ outer, ?_, fun w hmem => ?_, ?_⟩
        · rw [hcollects.parts_eq, hparts, List.append_assoc]
        · exact (List.mem_append.mp hmem).elim (hcollects.notMem rfl w) (houter w)
        · rw [hbatches, hcollects.collected, batchesAmong_append, List.append_assoc]

/-! ### The command line -/

theorem Progress.finish_eq_ok {p : Progress} {g : Given} {environment : Option String}
    (h : p.finish environment = .ok g) : p.resolved = .ok g := by
  obtain ⟨given, hgiven, h⟩ := bind_eq_ok.mp h
  dsimp only at h
  split at h
  · cases h
  · obtain rfl := Except.ok.inj h
    exact hgiven

/-- A command line that is understood has a verb, and what is given before and after it has been
read. -/
theorem Invocation.ofArguments_eq_ok {words : List String} {environment : Option String}
    {i : Invocation} (h : ofArguments words environment = .ok i) :
    ∃ outer verb rest inner before after, readTop {} words = .ok (outer, some (verb, rest)) ∧
      rest.foldlM (Progress.read (.under verb)) {} = .ok inner ∧
      outer.resolved = .ok before ∧ inner.resolved = .ok after ∧
      i.batches = if after.batches.isEmpty then before.batches else after.batches := by
  obtain ⟨⟨outer, verb⟩, hread, h⟩ := bind_eq_ok.mp h
  rcases verb with _ | ⟨verb, rest⟩
  · obtain ⟨given, -, h⟩ := bind_eq_ok.mp h
    split at h <;> cases h
  · obtain ⟨inner, hinner, h⟩ := bind_eq_ok.mp h
    obtain ⟨after, hafter, h⟩ := bind_eq_ok.mp h
    obtain ⟨command, -, h⟩ := bind_eq_ok.mp h
    obtain ⟨before, hbefore, h⟩ := bind_eq_ok.mp h
    obtain rfl := Except.ok.inj h
    exact ⟨outer, verb, rest, inner, before, after, hread, hinner, Progress.finish_eq_ok hbefore,
      Progress.finish_eq_ok hafter, rfl⟩

/-- **The batch files that are loaded** are those that are named after the verb, if there are
any, and otherwise those that are named before it, in the order in which they are named. So all
that are named are loaded exactly if none are named on one side of the verb. -/
theorem Invocation.batches_ofArguments {words : List String} {environment : Option String}
    {i : Invocation} (h : ofArguments words environment = .ok i) :
    ∃ outer inner, ∃ verb : Verb, parts none words = outer ++ .operand verb.name :: inner ∧
      (∀ w, .operand w ∉ outer) ∧
      (i.batches = if batchesAmong inner = [] then batchesAmong outer else batchesAmong inner) ∧
      (i.batches = batchesAmong (parts none words) ↔
        batchesAmong outer = [] ∨ batchesAmong inner = []) := by
  obtain ⟨outer, verb, rest, inner, before, after, hread, hinner, hbefore, hafter, hi⟩ :=
    ofArguments_eq_ok h
  obtain ⟨ps, hparts, hps, hbefore⟩ := batches_of_readTop rfl hread hbefore
  have hparts : parts none words = ps ++ .operand verb.name :: parts none rest := hparts
  have hbefore : before.batches = batchesAmong ps := hbefore
  have hafter : after.batches = batchesAmong (parts none rest) :=
    Progress.batches_of_read rfl hinner hafter
  have hall : batchesAmong (parts none words) =
      batchesAmong ps ++ batchesAmong (parts none rest) := by
    rw [hparts, batchesAmong_append]
    rfl
  rw [hbefore, hafter] at hi
  simp only [List.isEmpty_iff] at hi
  refine ⟨ps, parts none rest, verb, hparts, hps, hi, ?_⟩
  rw [hi, hall]
  split
  case isTrue hnone => simp [hnone]
  case isFalse hsome =>
    rw [List.self_eq_append_left]
    exact ⟨Or.inl, fun h => h.resolve_right hsome⟩

/-- All spellings on one side of the verb, with a value that looks like the verb. -/
theorem Invocation.batches_ofArguments_cycles :
    ofArguments ["cycles", "-b", "cycles", "demo", "-vbtwo", "--batch=three"] none =
        .ok ⟨["cycles", "two", "three"], none, false, 1, .cycles "demo" false⟩ ∧
      ∃ outer inner, ∃ verb : Verb,
        parts none ["cycles", "-b", "cycles", "demo", "-vbtwo", "--batch=three"] =
          outer ++ .operand verb.name :: inner ∧
        (∀ w, .operand w ∉ outer) ∧
        (["cycles", "two", "three"] =
          if batchesAmong inner = [] then batchesAmong outer else batchesAmong inner) ∧
        (["cycles", "two", "three"] = batchesAmong
            (parts none ["cycles", "-b", "cycles", "demo", "-vbtwo", "--batch=three"]) ↔
          batchesAmong outer = [] ∨ batchesAmong inner = []) := by
  have hread : ofArguments ["cycles", "-b", "cycles", "demo", "-vbtwo", "--batch=three"] none =
      .ok ⟨["cycles", "two", "three"], none, false, 1, .cycles "demo" false⟩ := by
    decide +kernel
  exact ⟨hread, batches_ofArguments hread⟩

/-- **A batch file that is named before the verb is lost** if another is named after it. -/
theorem Invocation.batches_ne_of_both_sides :
    ∃ i, ofArguments ["-b", "one.json", "ingest", "-b", "two.json"] none = .ok i ∧
      i.batches = ["two.json"] ∧
      batchesAmong (parts none ["-b", "one.json", "ingest", "-b", "two.json"]) =
        ["one.json", "two.json"] :=
  ⟨⟨["two.json"], none, false, 0, .ingest⟩, by decide +kernel, rfl, by decide +kernel⟩

end DepGraph.Cli
