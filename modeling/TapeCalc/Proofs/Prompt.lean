import TapeCalc.Proofs.ExpressionText
import TapeCalc.Proofs.InputLines
import TapeCalc.Proofs.SmallLetters

/-!
# The prompt and the block of results

Both ask the calculator for the same text up to the blanks at its ends, and blanks anywhere bear on
no answer. The words of the prompt are compared in small letters by the case mappings of Unicode.
They hold no symbol of an operator, so that no line with an expression is taken for one of them.
-/
namespace TapeCalc

namespace Text

theorem compact_dropWhile (text : List Char) : compact (text.dropWhile isBlank) = compact text := by
  induction text with
  | nil => rfl
  | cons c text ih =>
    by_cases hc : isBlank c = true
    · rw [List.dropWhile_cons_of_pos hc, ih, compact, compact,
        List.filter_cons_of_neg (by simp [hc])]
    · rw [List.dropWhile_cons_of_neg hc]

theorem compact_reverse (text : List Char) : compact text.reverse = (compact text).reverse :=
  List.filter_reverse

theorem compact_strip (text : List Char) : compact (strip text) = compact text := by
  rw [strip, compact_reverse, compact_dropWhile, compact_reverse, compact_dropWhile,
    List.reverse_reverse]

theorem mem_strip_of_mem_compact {c : Char} {text : List Char} (h : c ∈ compact text) :
    c ∈ strip text := by
  rw [← compact_strip] at h
  exact List.mem_of_mem_filter h

end Text

theorem Machine.execute_add {m : Machine} {fuel : Nat} {program : Program} {input : List UInt8}
    {answer : Except Fault Report} (h : m.execute fuel program input = some answer) (more : Nat) :
    m.execute (fuel + more) program input = some answer := by
  obtain ⟨ending, hending, rfl⟩ := Option.map_eq_some_iff.mp h
  rw [execute, State.runToEnd_add hending more, Option.map_some]

namespace Calculator

variable {calculator : Calculator} {fuel : Nat} {mode : Mode} {text other : String}
  {result : Except Failure Evaluation}

theorem calculate_add (h : calculator.calculate fuel mode text = some result) (more : Nat) :
    calculator.calculate (fuel + more) mode text = some result := by
  unfold calculate at h ⊢
  cases hparse : Expression.parse text with
  | error failure =>
    rw [hparse] at h
    exact h
  | ok e =>
    rw [hparse] at h
    cases mode with
    | bigNumber => exact h
    | eightBit =>
      simp only [evaluate, evaluateEightBit] at h ⊢
      split at h
      next hzero => rw [if_pos hzero, h]
      next hzero =>
        obtain ⟨answer, hanswer, rfl⟩ := Option.map_eq_some_iff.mp h
        rw [if_neg hzero, Machine.execute_add hanswer more, Option.map_some]

/-- Blanks bear on no answer, nor on the text of an error. -/
theorem calculate_congr (h : Text.compact text.toList = Text.compact other.toList) (fuel : Nat)
    (mode : Mode) : calculator.calculate fuel mode text = calculator.calculate fuel mode other := by
  simp only [calculate, Expression.parse, Expression.parse?, h]

end Calculator

namespace CommandLine

@[simp] theorem Transcript.written_append (first second : Transcript) :
    (first ++ second).written = first.written ++ second.written := rfl

@[simp] theorem Transcript.written_write (text : String) : (write text).written = text := rfl

@[simp] theorem Transcript.written_writeLine (text : String) :
    (writeLine text).written = text ++ "\n" := rfl

theorem Transcript.written_foldl (first : Transcript) (answers : List Transcript) :
    (answers.foldl (· ++ ·) first).written =
      first.written ++ String.join (answers.map Transcript.written) := by
  induction answers generalizing first with
  | nil => simp
  | cons answer answers ih => rw [List.foldl_cons, ih]; simp [String.append_assoc]

/-- With enough fuel this is written, and with more the same. -/
def Writes (transcript : Nat → Option Transcript) (written : String) : Prop :=
  ∃ least, ∀ fuel, least ≤ fuel → (transcript fuel).map Transcript.written = some written

theorem Writes.of_eq {transcript : Nat → Option Transcript} {t : Transcript}
    (h : ∀ fuel, transcript fuel = some t) : Writes transcript t.written :=
  ⟨0, fun fuel _ => by rw [h, Option.map_some]⟩

/-- What is shown of an answer: the value, with the counters if they are wanted, or the failure. -/
inductive Verdict where
  | value (text counters : String)
  | failure (message : String)
  deriving DecidableEq, Repr

namespace Verdict

def shown (value failure : String → String) : Verdict → String
  | .value text counters => value text ++ "\n" ++ counters
  | .failure message => failure message ++ "\n"

def atPrompt : Verdict → String := shown ("= " ++ ·) ("Error: " ++ ·)

def inBatch (asked : String) : Verdict → String :=
  shown (asked ++ " = " ++ ·) (asked ++ ": ERROR - " ++ ·)

end Verdict

namespace Session

variable (session : Session) (ends : List Char → List Char → Bool)

def verdict : Except Failure Evaluation → Verdict
  | .ok evaluation => .value evaluation.value.text (session.statsText evaluation)
  | .error cause => .failure cause.message

/-- The evaluation of a text ends, with this verdict. -/
def Judges (text : String) (verdict : Verdict) : Prop :=
  ∃ fuel, (session.calculator.calculate fuel session.mode text).map session.verdict = some verdict

/-- A line without the blanks at its ends, in small letters. -/
def wordOf (line : String) : String := String.ofList (Text.lower ends (Text.strip line.toList))

/-- The line ends the dialogue. -/
def leaves (line : String) : Bool := wordOf ends line ∈ ["quit", "exit", "q"]

/-- The line is neither blank nor a call for help. -/
def Asks (line : String) : Prop := Text.strip line.toList ≠ [] ∧ wordOf ends line ≠ "help"

/-- The one reply to a line that does not end the dialogue. -/
inductive Replies (line : String) : String → Prop
  | help (h : wordOf ends line = "help") :
    Replies line (String.join (promptHelp.map (· ++ "\n")))
  | blank (h : Text.strip line.toList = []) : Replies line ""
  | answer {verdict : Verdict} (h : Asks ends line) (hv : session.Judges line verdict) :
    Replies line verdict.atPrompt

/-- The lines up to the first that ends the dialogue. -/
def handled (lines : List String) : List String := lines.takeWhile fun line => !leaves ends line

def lastWords (lines : List String) : String :=
  if lines.any (leaves ends) then "Exiting...\n" else "\n\nExiting...\n"

/-- The session that has these expressions among its arguments. -/
def withExpressions (texts : List String) : Session :=
  { session with options := { session.options with expressions := texts } }

variable {session ends} {text other line : String} {verdict : Verdict}

theorem Judges.unique {first second : Verdict} (h : session.Judges text first)
    (g : session.Judges text second) : first = second := by
  obtain ⟨m, hm⟩ := h
  obtain ⟨n, hn⟩ := g
  obtain ⟨result, hresult, rfl⟩ := Option.map_eq_some_iff.mp hm
  obtain ⟨result', hresult', rfl⟩ := Option.map_eq_some_iff.mp hn
  have hmore := Calculator.calculate_add hresult n
  rw [Nat.add_comm, Calculator.calculate_add hresult' m] at hmore
  rw [Option.some.inj hmore]

theorem judges_congr (h : Text.compact text.toList = Text.compact other.toList) :
    session.Judges text verdict ↔ session.Judges other verdict := by
  simp only [Judges, Calculator.calculate_congr h]

theorem judges_strip :
    session.Judges (String.ofList (Text.strip text.toList)) verdict ↔
      session.Judges text verdict :=
  judges_congr (by rw [String.toList_ofList, Text.compact_strip])

theorem written_logText (fuel : Nat) (text : String) :
    (session.logText fuel text).written = "" := by
  unfold logText
  split <;> rfl

theorem Judges.writes (h : session.Judges text verdict) (value failure : String → String) :
    Writes (fun fuel => session.answer fuel text value failure) (verdict.shown value failure) := by
  obtain ⟨least, hleast⟩ := h
  obtain ⟨result, hresult, rfl⟩ := Option.map_eq_some_iff.mp hleast
  refine ⟨least, fun fuel hfuel => ?_⟩
  obtain ⟨more, rfl⟩ := Nat.exists_eq_add_of_le hfuel
  simp only [answer, Calculator.calculate_add hresult more]
  cases result <;> simp [written_logText, Session.verdict, Verdict.shown]

theorem Judges.writes_promptAnswer (h : session.Judges text verdict) :
    Writes (fun fuel => session.promptAnswer fuel text) verdict.atPrompt :=
  h.writes ("= " ++ ·) ("Error: " ++ ·)

theorem Judges.writes_batchAnswer (h : session.Judges text verdict) :
    Writes (fun fuel => session.batchAnswer fuel text) (verdict.inBatch text) :=
  h.writes (text ++ " = " ++ ·) (text ++ ": ERROR - " ++ ·)

def promptWords : List String := ["quit", "exit", "q", "help"]

/-- The kelvin spells no word of the prompt. -/
theorem spelling_of_mem_promptWords {word : String} (h : word ∈ promptWords) :
    ∀ d ∈ word.toList, d.toNat ≤ 127 ∧ d ≠ 'k' := by
  have hall : ∀ word ∈ promptWords,
      (word.toList.all fun d => d.toNat ≤ 127 && d != 'k') = true := by decide
  simpa using hall word h

theorem symbol_notMem_promptWords :
    ∀ word ∈ promptWords, ∀ op : Operator, op.symbol.toLower ∉ word.toList := by
  intro word hword op
  revert word
  cases op <;> decide

theorem wordOf_eq_iff {word : String} (hword : word ∈ promptWords) :
    wordOf ends line = word ↔
      String.ofList ((Text.strip line.toList).map Char.toLower) = word := by
  rw [wordOf, ← String.ofList_toList (s := word), String.ofList_inj, String.ofList_inj,
    Text.lower_eq_iff (spelling_of_mem_promptWords hword)]

theorem requestOf_eq (ends : List Char → List Char → Bool) (line : String) :
    requestOf line =
      if leaves ends line then .quit
      else if wordOf ends line = "help" then .help
      else if Text.strip line.toList = [] then .nothing
      else .evaluate (String.ofList (Text.strip line.toList)) := by
  have hquit : "quit" ∈ promptWords := by decide
  have hexit : "exit" ∈ promptWords := by decide
  have hq : "q" ∈ promptWords := by decide
  have hhelp : "help" ∈ promptWords := by decide
  simp only [requestOf, leaves, List.mem_cons, List.not_mem_nil, or_false, wordOf_eq_iff hquit,
    wordOf_eq_iff hexit, wordOf_eq_iff hq, wordOf_eq_iff hhelp]
  simp [or_assoc]

/-- A symbol is its own small letter, so it stands in the word of the line too. -/
theorem wordOf_notMem_of_symbol (ends : List Char → List Char → Bool) {op : Operator}
    (h : op.symbol ∈ Text.strip line.toList) :
    wordOf ends line ∉ promptWords := by
  intro hword
  apply symbol_notMem_promptWords _ hword op
  rw [← (wordOf_eq_iff hword).mp rfl, String.toList_ofList]
  exact List.mem_map_of_mem h

theorem asks_of_parse {e : Expression} (h : Expression.parse text = .ok e) :
    leaves ends text = false ∧ Asks ends text := by
  obtain ⟨before, after, hcompact, -⟩ := Expression.parse_eq_ok_iff.mp h
  have hsymbol : e.op.symbol ∈ Text.strip text.toList :=
    Text.mem_strip_of_mem_compact (by simp [hcompact])
  have hword := wordOf_notMem_of_symbol ends hsymbol
  simp only [promptWords, List.mem_cons, not_or] at hword
  obtain ⟨hquit, hexit, hq, hhelp, -⟩ := hword
  exact ⟨by simp [leaves, hquit, hexit, hq], List.ne_nil_of_mem hsymbol, hhelp⟩

theorem Replies.writes {told : String} (h : session.Replies ends line told)
    (hl : leaves ends line = false) :
    requestOf line ≠ .quit ∧ Writes (fun fuel => session.reply fuel (requestOf line)) told := by
  have hq : ¬leaves ends line = true := by simp [hl]
  rw [requestOf_eq ends line, if_neg hq]
  cases h with
  | help h =>
    rw [if_pos h]
    exact ⟨by simp, .of_eq (t := .write _) fun _ => rfl⟩
  | blank h =>
    have hne : wordOf ends line ≠ "help" := by
      rw [wordOf, h]
      exact (by decide : "" ≠ "help")
    rw [if_neg hne, if_pos h]
    exact ⟨by simp, .of_eq (t := {}) fun _ => rfl⟩
  | answer h hv =>
    rw [if_neg h.2, if_neg h.1]
    exact ⟨by simp, (judges_strip.mpr hv).writes_promptAnswer⟩

theorem exists_reply (h : Asks ends line → ∃ verdict, session.Judges line verdict) :
    ∃ told, session.Replies ends line told := by
  by_cases hblank : Text.strip line.toList = []
  · exact ⟨_, .blank hblank⟩
  · by_cases hhelp : wordOf ends line = "help"
    · exact ⟨_, .help hhelp⟩
    · obtain ⟨verdict, hv⟩ := h ⟨hblank, hhelp⟩
      exact ⟨_, .answer ⟨hblank, hhelp⟩ hv⟩

theorem exists_replies {lines : List String}
    (h : ∀ line ∈ lines, Asks ends line → ∃ verdict, session.Judges line verdict) :
    ∃ replies, List.Forall₂ (session.Replies ends) lines replies := by
  induction lines with
  | nil => exact ⟨[], .nil⟩
  | cons line lines ih =>
    obtain ⟨told, htold⟩ := exists_reply (h line List.mem_cons_self)
    obtain ⟨replies, hreplies⟩ := ih fun other hother => h other (List.mem_cons_of_mem _ hother)
    exact ⟨told :: replies, .cons htold hreplies⟩

/-- One line of the dialogue. -/
theorem writes_dialogue_cons {told later : String} {lines : List (Option String)}
    (hq : requestOf line ≠ .quit)
    (h : Writes (fun fuel => session.reply fuel (requestOf line)) told)
    (hl : Writes (fun fuel => session.dialogue fuel lines) later) :
    Writes (fun fuel => session.dialogue fuel (some line :: lines))
      (promptMark ++ told ++ later) := by
  -- more fuel than a reply takes changes nothing in it, so the larger amount serves both
  obtain ⟨m, hm⟩ := h
  obtain ⟨n, hn⟩ := hl
  refine ⟨max m n, fun fuel hfuel => ?_⟩
  obtain ⟨here, hhere, rfl⟩ := Option.map_eq_some_iff.mp (hm fuel (by omega))
  obtain ⟨rest, hrest, rfl⟩ := Option.map_eq_some_iff.mp (hn fuel (by omega))
  simp [dialogue, hhere, hq, hrest]

/-- The lines of the dialogue before one that ends it. What comes later has no part in their
replies, and none of them, a failure either, in what comes later. -/
theorem writes_dialogue_append {front replies : List String} {back : List (Option String)}
    {later : String} (h : List.Forall₂ (session.Replies ends) front replies)
    (hf : ∀ line ∈ front, leaves ends line = false)
    (hl : Writes (fun fuel => session.dialogue fuel back) later) :
    Writes (fun fuel => session.dialogue fuel (front.map some ++ back))
      (String.join (replies.map (promptMark ++ ·)) ++ later) := by
  induction h with
  | nil => simpa using hl
  | cons h hs ih =>
    obtain ⟨hq, hreply⟩ := h.writes (hf _ List.mem_cons_self)
    have hmore := ih fun line hline => hf line (List.mem_cons_of_mem _ hline)
    simpa [String.append_assoc] using writes_dialogue_cons hq hreply hmore

/-- The whole dialogue: the replies to the lines up to one that ends it, and the last words. -/
theorem writes_dialogue {lines replies : List String}
    (h : List.Forall₂ (session.Replies ends) (handled ends lines) replies) :
    Writes (fun fuel => session.dialogue fuel (lines.map some))
      (String.join (replies.map (promptMark ++ ·)) ++ promptMark ++ lastWords ends lines) := by
  induction lines generalizing replies with
  | nil =>
    cases h
    exact .of_eq (t := .write promptMark ++ farewell) fun _ => rfl
  | cons line lines ih =>
    cases hl : leaves ends line with
    | true =>
      have hnone : handled ends (line :: lines) = [] := by simp [handled, hl]
      have hq : requestOf line = .quit := by rw [requestOf_eq ends line, if_pos hl]
      rw [hnone] at h
      cases h
      have hdialogue : ∀ fuel, session.dialogue fuel ((line :: lines).map some) =
          some (.write promptMark ++ .writeLine "Exiting...") := by
        intro fuel
        simp [dialogue, hq, reply]
      rw [lastWords, if_pos (by simp [hl])]
      exact .of_eq hdialogue
    | false =>
      have hmore : handled ends (line :: lines) = line :: handled ends lines := by
        simp [handled, hl]
      have hlast : lastWords ends (line :: lines) = lastWords ends lines := by
        simp [lastWords, hl]
      rw [hmore] at h
      cases h with
      | cons h hs =>
        obtain ⟨hq, hreply⟩ := h.writes hl
        simpa [hlast, String.append_assoc] using writes_dialogue_cons hq hreply (ih hs)

theorem exists_mapM_batchAnswer (session : Session) {texts : List String}
    {verdicts : List Verdict} (h : List.Forall₂ session.Judges texts verdicts) :
    ∃ least, ∀ fuel, least ≤ fuel →
      (texts.mapM (session.batchAnswer fuel)).map (·.map Transcript.written) =
        some (List.zipWith (fun text verdict => verdict.inBatch text) texts verdicts) := by
  induction h with
  | nil => exact ⟨0, fun _ _ => rfl⟩
  | cons h _ ih =>
    obtain ⟨m, hm⟩ := h.writes_batchAnswer
    obtain ⟨n, hn⟩ := ih
    refine ⟨max m n, fun fuel hfuel => ?_⟩
    obtain ⟨here, hhere, hw⟩ := Option.map_eq_some_iff.mp (hm fuel (by omega))
    obtain ⟨rest, hrest, hws⟩ := Option.map_eq_some_iff.mp (hn fuel (by omega))
    simp [List.mapM_cons, hhere, hrest, hw, hws]

theorem writes_batch {texts : List String} {verdicts : List Verdict} (hne : texts ≠ [])
    (h : List.Forall₂ session.Judges texts verdicts) :
    Writes (session.withExpressions texts).batch
      ("\nResults:\n" ++ thinRule 40 ++ "\n" ++
        String.join (List.zipWith (fun text verdict => verdict.inBatch text) texts verdicts) ++
        thinRule 40 ++ "\n") := by
  obtain ⟨least, hleast⟩ := exists_mapM_batchAnswer (session.withExpressions texts) h
  refine ⟨least, fun fuel hfuel => ?_⟩
  obtain ⟨answers, hanswers, hw⟩ := Option.map_eq_some_iff.mp (hleast fuel hfuel)
  have hexpressions : (session.withExpressions texts).options.expressions = texts := rfl
  simp [batch, hexpressions, hne, hanswers, Transcript.written_foldl, hw, String.append_assoc]

/-- The prompt and the block of results give the same answers, each in its own words. -/
structure AnswersAlike (session : Session) (ends : List Char → List Char → Bool) : Prop where
  /-- The lines up to the first that ends the dialogue have one reply each, in their order. -/
  prompt : ∀ input : String,
    (∀ line ∈ handled ends (inputTexts input), Asks ends line →
      ∃ verdict, session.Judges line verdict) →
    ∃ replies, List.Forall₂ (session.Replies ends) (handled ends (inputTexts input)) replies ∧
      Writes (fun fuel => session.dialogue fuel (inputLines input.toUTF8.data.toList))
        (String.join (replies.map (promptMark ++ ·)) ++ promptMark ++
          lastWords ends (inputTexts input))
  /-- The verdicts on the expressions among the arguments, in their order. -/
  batch : ∀ (texts : List String) (verdicts : List Verdict), texts ≠ [] →
    List.Forall₂ session.Judges texts verdicts →
    Writes (session.withExpressions texts).batch
      ("\nResults:\n" ++ thinRule 40 ++ "\n" ++
        String.join (List.zipWith (fun text verdict => verdict.inBatch text) texts verdicts) ++
        thinRule 40 ++ "\n")
  only : ∀ text first second, session.Judges text first → session.Judges text second →
    first = second
  stripped : ∀ text verdict, session.Judges (String.ofList (Text.strip text.toList)) verdict ↔
    session.Judges text verdict
  /-- No line with an expression is a word of the prompt, or blank. -/
  expression : ∀ text e, Expression.parse text = .ok e →
    leaves ends text = false ∧ Asks ends text
  /-- Whatever the replies to some lines are, failures too, the rest of the dialogue is what it
  is without these lines. -/
  goesOn : ∀ (front replies : List String) (back : List (Option String)) (later : String),
    List.Forall₂ (session.Replies ends) front replies →
    (∀ line ∈ front, leaves ends line = false) →
    Writes (fun fuel => session.dialogue fuel back) later →
    Writes (fun fuel => session.dialogue fuel (front.map some ++ back))
      (String.join (replies.map (promptMark ++ ·)) ++ later)

/-- For every rule of where a Greek word ends. -/
theorem prompt_answers_as_batch (session : Session) (ends : List Char → List Char → Bool) :
    session.AnswersAlike ends where
  prompt input h := by
    obtain ⟨replies, hreplies⟩ := exists_replies h
    rw [inputLines_toUTF8]
    exact ⟨replies, hreplies, writes_dialogue hreplies⟩
  batch _ _ := writes_batch
  only _ _ _ := Judges.unique
  stripped _ _ := judges_strip
  expression _ _ := asks_of_parse
  goesOn _ _ _ _ := writes_dialogue_append

/-- The blanks about a line, a carriage return too, are left out, and nothing that comes after the
word to leave is read. -/
example :
    let session : Session := ⟨.withLibrary {} .builtin, {}, .bigNumber⟩
    (session.dialogue 0 (inputLines " 7x3\r\n\n 6*7\nEXIT\n1+1".toUTF8.data.toList)).map
        Transcript.written =
      some "\n> Error: cannot parse expression: '7x3'\n\n> \n> = 42\n\n> Exiting...\n" := by
  decide +kernel

end Session

end CommandLine

end TapeCalc
