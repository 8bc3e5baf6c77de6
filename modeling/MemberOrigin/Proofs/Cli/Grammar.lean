import Mathlib.Data.List.Basic
import MemberOrigin.Cli.Args

/-!
# The grammar of command lines

## Main result

`read_grammar`: what a command line means is told by its scanned arguments. The first of them that
asks for a page decides alone. Without such an argument, the first two that are no options are the
command and the dump file, the last config option counts, a flag is set if it was scanned, and all
other arguments are unknown. A flag may therefore stand anywhere but behind a config option.

## Proof strategy

Reading a command line takes in its scanned arguments one by one. By induction from the back, what
has been taken in is the meaning of the arguments so far, as one further argument changes the meaning
in the way in which it is added.
-/
namespace MemberOrigin.Cli

/-! ### Spellings -/

/-- The options that are either given or not. -/
inductive Flag
  | verbose
  | quiet
  | json
  | onlyGenerated
  | debugAssertions
deriving DecidableEq

def Flag.spellings : Flag → List String
  | .verbose => ["-V", "--verbose"]
  | .quiet => ["-q", "--quiet"]
  | .json => ["--json"]
  | .onlyGenerated => ["--only-generated"]
  | .debugAssertions => ["--debug-assertions"]

def Flag.kind : Flag → ArgumentKind
  | .verbose => .verbose
  | .quiet => .quiet
  | .json => .json
  | .onlyGenerated => .onlyGenerated
  | .debugAssertions => .debugAssertions

def Options.get (options : Options) : Flag → Option Bool
  | .verbose => options.verbose
  | .quiet => options.quiet
  | .json => options.json
  | .onlyGenerated => options.onlyGenerated
  | .debugAssertions => options.debugAssertions

def Options.set (options : Options) : Flag → Options
  | .verbose => { options with verbose := some true }
  | .quiet => { options with quiet := some true }
  | .json => { options with json := some true }
  | .onlyGenerated => { options with onlyGenerated := some true }
  | .debugAssertions => { options with debugAssertions := some true }

def helpSpellings : List String := ["-h", "--help"]

def versionSpellings : List String := ["-v", "--version"]

def configSpellings : List String := ["-c", "--config"]

/-- All spellings of options. -/
def optionSpellings : List String :=
  helpSpellings ++ versionSpellings ++ Flag.verbose.spellings ++ Flag.quiet.spellings
    ++ configSpellings ++ Flag.json.spellings ++ Flag.onlyGenerated.spellings
    ++ Flag.debugAssertions.spellings

def isKnown (text : String) : Bool :=
  optionSpellings.contains text

def isPositional (text : String) : Bool :=
  text.toList.head? != some '-'

/-- What an argument is by its text. -/
inductive Form : String → ArgumentKind → Prop
  | blank : Form "" .blank
  | positional {text : String} (filled : text ≠ "") (plain : isPositional text = true) :
      Form text .positional
  | help {text : String} (named : text ∈ helpSpellings) : Form text .help
  | version {text : String} (named : text ∈ versionSpellings) : Form text .version
  | config {text : String} (named : text ∈ configSpellings) : Form text .config
  | flag {text : String} (flag : Flag) (named : text ∈ flag.spellings) : Form text flag.kind
  | unknown {text : String} (dash : isPositional text = false) (new : text ∉ optionSpellings) :
      Form text .unknown

theorem form_of_mem : ∀ entry ∈ optionNames, Form entry.1 entry.2 := by
  simp only [optionNames, List.forall_mem_cons]
  refine ⟨.help ?_, .help ?_, .version ?_, .version ?_, .flag .verbose ?_, .flag .verbose ?_,
    .flag .quiet ?_, .flag .quiet ?_, .config ?_, .config ?_, .flag .json ?_,
    .flag .onlyGenerated ?_, .flag .debugAssertions ?_, List.forall_mem_nil _⟩ <;> decide

theorem form_of (text : String) : Form text (ArgumentKind.of text) := by
  unfold ArgumentKind.of
  split
  next empty =>
    obtain rfl : text = "" := String.toList_eq_nil_iff.mp empty
    exact .blank
  next rest dashed =>
    cases found : optionNames.lookup text with
    -- a text with a dash that stands in no table is an unknown option
    | none =>
      refine .unknown (by simp [isPositional, dashed]) ?_
      have new := List.lookup_eq_none_iff.mp found
      simpa [optionNames, optionSpellings, helpSpellings, versionSpellings, configSpellings,
        Flag.spellings, and_assoc] using new
    | some kind =>
      obtain ⟨before, after, entries, _⟩ := List.lookup_eq_some_iff.mp found
      exact form_of_mem (text, kind) (by simp [entries])
  next filled noDash =>
    have notEmpty : text ≠ "" := fun empty => filled (String.toList_eq_nil_iff.mpr empty)
    refine .positional notEmpty ?_
    rw [isPositional, bne_iff_ne]
    intro dashed
    obtain ⟨rest, chars⟩ := List.head?_eq_some_iff.mp dashed
    exact noDash rest chars

/-! ### Scanning -/

/-- A scanned argument: one that stands for itself, or a config option with the value it takes. -/
inductive Scanned
  | argument (text : String)
  | config (value : String)

/-- Goes through a command line. A config option waits for the next argument, whatever that is, and
has the empty text if there is none; other empty arguments are left out. -/
def scanFrom : Bool → List String → List Scanned
  | true, [] => [.config ""]
  | false, [] => []
  | true, value :: rest => .config value :: scanFrom false rest
  | false, text :: rest =>
    if text ∈ configSpellings then scanFrom true rest
    else if text = "" then scanFrom false rest
    else .argument text :: scanFrom false rest

def scan (arguments : List String) : List Scanned :=
  scanFrom false arguments

/-- Whether a config option waits for its value behind these arguments. -/
def waitsBehind : Bool → List String → Bool
  | waiting, [] => waiting
  | true, _ :: rest => waitsBehind false rest
  | false, text :: rest => waitsBehind (text ∈ configSpellings) rest

/-- The scanned arguments that stand for themselves. -/
def texts (scanned : List Scanned) : List String :=
  scanned.filterMap fun
    | .argument text => some text
    | .config _ => none

/-- The values of the config options. -/
def values (scanned : List Scanned) : List String :=
  scanned.filterMap fun
    | .argument _ => none
    | .config value => some value

/-- Where no config option waits, a command line can be cut. -/
theorem scanFrom_append {waiting : Bool} {front : List String}
    (free : waitsBehind waiting front = false) (back : List String) :
    scanFrom waiting (front ++ back) = scanFrom waiting front ++ scanFrom false back := by
  induction front generalizing waiting with
  | nil =>
    obtain rfl : waiting = false := free
    rfl
  | cons text rest ih =>
    cases waiting with
    | true => simp only [List.cons_append, scanFrom, ih free]
    | false =>
      simp only [waitsBehind] at free
      simp only [List.cons_append, scanFrom]
      split
      -- behind a config option the rest is scanned in the waiting state
      next config => exact ih (by simpa [config] using free)
      next other =>
        have free : waitsBehind false rest = false := by simpa [other] using free
        split
        · exact ih free
        · rw [ih free, List.cons_append]

/-- Only behind a config option one can be waiting. -/
theorem mem_getLast?_of_waitsBehind {front : List String}
    (waits : waitsBehind false front = true) : ∃ last ∈ front.getLast?, last ∈ configSpellings := by
  -- the induction needs both states, as an option changes the one of the rest
  suffices general : ∀ waiting, waitsBehind waiting front = true →
      (front = [] ∧ waiting = true) ∨ ∃ last ∈ front.getLast?, last ∈ configSpellings by
    simpa using general false waits
  clear waits
  induction front with
  | nil => exact fun waiting waits => .inl ⟨rfl, waits⟩
  | cons text rest ih =>
    intro waiting waits
    have behind (state : Bool) (waits : waitsBehind state rest = true)
        (here : state = true → text ∈ configSpellings) :
        ∃ last ∈ (text :: rest).getLast?, last ∈ configSpellings := by
      rcases ih state waits with ⟨rfl, isWaiting⟩ | ⟨last, found, named⟩
      · exact ⟨text, rfl, here isWaiting⟩
      · exact ⟨last, List.mem_getLast?_cons found, named⟩
    cases waiting with
    | true => exact .inr (behind false waits (by simp))
    | false => exact .inr (behind _ waits (by simp))

/-! ### Taking scanned arguments in -/

namespace Arguments

/-- The page that an argument asks for. -/
def page? (text : String) : Option Arguments :=
  if text ∈ helpSpellings then some { command := "help" }
  else if text ∈ versionSpellings then some { command := "version" }
  else none

/-- Takes in what was scanned, up to the first argument that asks for a page. -/
def takeIn : Arguments → List Scanned → Arguments
  | arguments, [] => arguments
  | arguments, .config value :: rest => takeIn (arguments.setConfig value) rest
  | arguments, .argument text :: rest => (page? text).getD (takeIn (arguments.add text) rest)

variable {arguments : Arguments} {text : String} {rest : List String}

theorem readFrom_of_config (named : text ∈ configSpellings) :
    arguments.readFrom (text :: rest) =
      (arguments.setConfig (rest.head?.getD "")).readFrom rest.tail := by
  have kind : ArgumentKind.of text = .config := by
    simp only [configSpellings, List.mem_cons, List.not_mem_nil, or_false] at named
    rcases named with rfl | rfl <;> decide
  cases rest <;> simp [readFrom, kind]

theorem readFrom_of_page {page : Arguments} (asked : page? text = some page) :
    arguments.readFrom (text :: rest) = page := by
  -- two options ask for a page, and reading stops at both of them
  unfold page? at asked
  split at asked
  next named =>
    have kind : ArgumentKind.of text = .help := by
      simp only [helpSpellings, List.mem_cons, List.not_mem_nil, or_false] at named
      rcases named with rfl | rfl <;> decide
    cases rest <;> simpa [readFrom, kind] using asked
  next =>
    split at asked
    next named =>
      have kind : ArgumentKind.of text = .version := by
        simp only [versionSpellings, List.mem_cons, List.not_mem_nil, or_false] at named
        rcases named with rfl | rfl <;> decide
      cases rest <;> simpa [readFrom, kind] using asked
    next => cases asked

/-- An argument that neither asks for a page nor takes a value is added. -/
theorem readFrom_of_other (noConfig : text ∉ configSpellings) (noPage : page? text = none) :
    arguments.readFrom (text :: rest) = (arguments.add text).readFrom rest := by
  have form := form_of text
  generalize kind : ArgumentKind.of text = found at form
  cases form with
  | help named => simp [page?, named] at noPage
  | version named =>
    rw [page?, if_pos named] at noPage
    split at noPage <;> cases noPage
  | config named => exact absurd named noConfig
  | flag flag => cases flag <;> cases rest <;> simp [readFrom, kind, Flag.kind]
  | blank | positional | unknown => cases rest <;> simp [readFrom, kind]

/-- Reading takes in what is scanned, also where a config option waits for its value. -/
theorem readFrom_eq_takeIn (commandLine : List String) :
    (∀ arguments : Arguments,
      arguments.readFrom commandLine = arguments.takeIn (scanFrom false commandLine)) ∧
    ∀ arguments : Arguments,
      (arguments.setConfig (commandLine.head?.getD "")).readFrom commandLine.tail =
        arguments.takeIn (scanFrom true commandLine) := by
  induction commandLine with
  | nil => exact ⟨fun _ => rfl, fun _ => rfl⟩
  | cons text rest ih =>
    obtain ⟨free, waiting⟩ := ih
    -- where an option waits, the first argument is its value, whatever it is
    refine ⟨fun arguments => ?_, fun arguments => free (arguments.setConfig text)⟩
    rw [scanFrom]
    split
    next named => rw [readFrom_of_config named, waiting]
    next noConfig =>
      split
      next empty =>
        subst empty
        rw [readFrom_of_other noConfig (by decide), ← free]
        rfl
      next filled =>
        rw [takeIn]
        cases asked : page? text with
        | some page => rw [readFrom_of_page asked, Option.getD_some]
        | none => rw [readFrom_of_other noConfig asked, Option.getD_none, free]

theorem takeIn_of_page {scanned : List Scanned} {page : Arguments}
    (asked : (texts scanned).findSome? page? = some page) (arguments : Arguments) :
    arguments.takeIn scanned = page := by
  induction scanned generalizing arguments with
  | nil => cases asked
  | cons item rest ih =>
    cases item with
    | config value => exact ih asked _
    | argument text =>
      rw [takeIn]
      cases here : page? text with
      | some first => simpa [texts, here] using asked
      | none => exact ih (by simpa [texts, here] using asked) _

/-! ### The meaning of the arguments so far -/

/-- The value of a flag: given if one of its spellings is among the arguments. -/
def given (texts : List String) (flag : Flag) : Option Bool :=
  if ∃ spelling ∈ flag.spellings, spelling ∈ texts then some true else none

/-- Of the arguments that are no known options, all but the first two that are no options at all. -/
def leftOver (texts : List String) : List String :=
  ((texts.filter fun text => !isKnown text).eraseP isPositional).eraseP isPositional

/-- What scanned arguments mean of which none asks for a page. -/
def meaning (texts values : List String) : Arguments where
  command := (texts.filter isPositional)[0]?.getD ""
  dumpFile := (texts.filter isPositional)[1]?
  options := {
    verbose := given texts .verbose
    quiet := given texts .quiet
    config := values.getLast?
    json := given texts .json
    onlyGenerated := given texts .onlyGenerated
    debugAssertions := given texts .debugAssertions }
  unknown := leftOver texts

theorem isKnown_of_mem {flag : Flag} (named : text ∈ flag.spellings) : isKnown text = true := by
  cases flag <;> simp [isKnown, optionSpellings, named]

/-- Known options start with a dash. -/
theorem isKnown_of_isPositional (plain : isPositional text = true) : isKnown text = false := by
  have dashed : ∀ text ∈ optionSpellings, isPositional text = false := by decide
  rw [isKnown, List.contains_eq_mem, decide_eq_false_iff_not]
  intro known
  rw [dashed text known] at plain
  cases plain

/-- No two flags share a spelling. -/
theorem flag_unique {flag other : Flag} (named : text ∈ flag.spellings)
    (again : text ∈ other.spellings) : flag = other := by
  have apart : ∀ flag other : Flag, ∀ text ∈ flag.spellings, text ∈ other.spellings →
      flag = other := by
    intro flag other
    cases flag <;> cases other <;> decide
  exact apart flag other text named again

/-- An argument that is no spelling of a flag does not set it, wherever it stands. -/
theorem given_insert_of_not_mem {flag : Flag} (noSpelling : text ∉ flag.spellings)
    (front back : List String) : given (front ++ text :: back) flag = given (front ++ back) flag := by
  have absent (spelling : String) (spells : spelling ∈ flag.spellings) : spelling ≠ text := by
    rintro rfl
    exact noSpelling spells
  unfold given
  congr 1
  simp only [List.mem_append, List.mem_cons, eq_iff_iff]
  refine exists_congr fun spelling => and_congr_right fun spells => ?_
  rw [or_iff_right (absent spelling spells)]

theorem given_insert {flag : Flag} (named : text ∈ flag.spellings) (front back : List String)
    (other : Flag) :
    given (front ++ text :: back) other =
      if other = flag then some true else given (front ++ back) other := by
  split
  next same =>
    subst same
    exact if_pos ⟨text, named, by simp⟩
  next differs =>
    exact given_insert_of_not_mem (fun again => differs (flag_unique again named)) front back

/-- An argument that is no known option sets no flag. -/
theorem given_concat {front : List String} (new : isKnown text = false) (flag : Flag) :
    given (front ++ [text]) flag = given front flag := by
  have noSpelling : text ∉ flag.spellings := by
    intro named
    rw [isKnown_of_mem named] at new
    cases new
  rw [given_insert_of_not_mem noSpelling, List.append_nil]

/-- A flag sets its own option and nothing else, wherever it stands. -/
theorem meaning_insert {flag : Flag} (named : text ∈ flag.spellings)
    (front back values : List String) :
    meaning (front ++ text :: back) values =
      { meaning (front ++ back) values with
        options := (meaning (front ++ back) values).options.set flag } := by
  have known := isKnown_of_mem named
  -- a known option starts with a dash, so it is neither a command nor left over
  have dash : isPositional text = false := by
    by_contra plain
    rw [isKnown_of_isPositional (by simpa using plain)] at known
    cases known
  have positionals : (front ++ text :: back).filter isPositional =
      (front ++ back).filter isPositional := by
    simp [dash]
  have unknown : leftOver (front ++ text :: back) = leftOver (front ++ back) := by
    simp [leftOver, known]
  simp only [meaning, positionals, unknown, given_insert named]
  cases flag <;> rfl

theorem eraseP_of_filter_eq_nil {p : String → Bool} {texts : List String}
    (none : texts.filter p = []) : texts.eraseP p = texts :=
  List.eraseP_of_forall_not (List.filter_eq_nil_iff.mp none)

theorem eraseP_concat {p : String → Bool} (passes : p text = true) (front : List String) :
    (front ++ [text]).eraseP p =
      if front.filter p = [] then front else front.eraseP p ++ [text] := by
  have none_iff : front.any p = true ↔ ¬ front.filter p = [] := by
    simp [List.filter_eq_nil_iff]
  rw [List.eraseP_append]
  by_cases absent : front.filter p = []
  · rw [if_neg (by simpa [none_iff] using absent), if_pos absent]
    simp [passes]
  · rw [if_pos (none_iff.mpr absent), if_neg absent]

theorem filter_eraseP (p : String → Bool) (front : List String) :
    (front.eraseP p).filter p = (front.filter p).tail := by
  induction front with
  | nil => rfl
  | cons first rest ih =>
    by_cases passes : p first = true
    · simp [passes]
    · simp [passes, ih]

/-- Behind the first two, an argument that is no option is left over. -/
theorem leftOver_concat_positional (plain : isPositional text = true) (front : List String) :
    leftOver (front ++ [text]) =
      if (front.filter isPositional).length < 2 then leftOver front
      else leftOver front ++ [text] := by
  have others : (front.filter fun text => !isKnown text).filter isPositional =
      front.filter isPositional := by
    rw [List.filter_filter]
    refine List.filter_congr fun other _ => ?_
    cases plain : isPositional other with
    | false => rfl
    | true => rw [isKnown_of_isPositional plain, Bool.not_false, Bool.and_self]
  have added : (front ++ [text]).filter (fun text => !isKnown text) =
      front.filter (fun text => !isKnown text) ++ [text] := by
    simp [isKnown_of_isPositional plain]
  unfold leftOver
  rw [added, ← others]
  generalize front.filter (fun text => !isKnown text) = kept
  rw [eraseP_concat plain]
  -- whether one of the two steps erases the new one depends on how many are there already
  by_cases none : kept.filter isPositional = []
  · rw [if_pos none, none, if_pos (by decide)]
    have same : kept.eraseP isPositional = kept := eraseP_of_filter_eq_nil none
    rw [same, same]
  · rw [if_neg none, eraseP_concat plain, filter_eraseP]
    obtain ⟨first, rest, filtered⟩ := List.exists_cons_of_ne_nil none
    have second := filter_eraseP isPositional kept
    rw [filtered] at second ⊢
    cases rest with
    | nil =>
      have same : (kept.eraseP isPositional).eraseP isPositional = kept.eraseP isPositional :=
        eraseP_of_filter_eq_nil second
      simp [same]
    | cons => simp

/-- The first two arguments that are no options become the command and the dump file. -/
theorem meaning_concat_positional {front : List String} (values : List String)
    (filled : ∀ earlier ∈ front, earlier ≠ "") (plain : isPositional text = true) :
    (meaning front values).addPositional text = meaning (front ++ [text]) values := by
  have positionals : (front ++ [text]).filter isPositional =
      front.filter isPositional ++ [text] := by
    simp [plain]
  -- it matters only how many positional arguments were there before
  obtain ⟨earlier, found⟩ : ∃ earlier, front.filter isPositional = earlier := ⟨_, rfl⟩
  simp only [addPositional, meaning, positionals, given_concat (isKnown_of_isPositional plain),
    leftOver_concat_positional plain, found]
  cases earlier with
  | nil => simp
  | cons command rest =>
    have known : command ≠ "" := by
      apply filled
      exact List.mem_of_mem_filter (found ▸ List.mem_cons_self)
    cases rest with
    | nil => simp [known]
    | cons dump others => simp [known]

theorem meaning_concat_unknown (dash : isPositional text = false) (new : isKnown text = false)
    (front values : List String) :
    { meaning front values with unknown := (meaning front values).unknown ++ [text] } =
      meaning (front ++ [text]) values := by
  -- what starts with a dash is not erased, so it stays behind what is kept
  have keeps (kept : List String) : (kept ++ [text]).eraseP isPositional =
      kept.eraseP isPositional ++ [text] := by
    rw [List.eraseP_append]
    split
    · rfl
    next none =>
      have same : kept.eraseP isPositional = kept :=
        List.eraseP_of_forall_not (by simpa using none)
      rw [same]
      simp [dash]
  have unknown : leftOver (front ++ [text]) = leftOver front ++ [text] := by
    simp [leftOver, new, keeps]
  have positionals : (front ++ [text]).filter isPositional = front.filter isPositional := by
    simp [dash]
  simp only [meaning, positionals, given_concat new, unknown]

/-- One more argument changes the meaning in the way in which it is added. -/
theorem add_meaning {front : List String} (values : List String)
    (earlier : ∀ other ∈ front, other ≠ "") (filled : text ≠ "") (noConfig : text ∉ configSpellings)
    (noPage : page? text = none) :
    (meaning front values).add text = meaning (front ++ [text]) values := by
  have form := form_of text
  generalize kind : ArgumentKind.of text = found at form
  unfold add
  rw [kind]
  -- one case per kind of argument; some of them are excluded by the hypotheses
  cases form with
  | blank => exact absurd rfl filled
  | help named => simp [page?, named] at noPage
  | version named =>
    rw [page?, if_pos named] at noPage
    split at noPage <;> cases noPage
  | config named => exact absurd named noConfig
  | positional _ plain => exact meaning_concat_positional values earlier plain
  | flag flag named =>
    have set := meaning_insert named front [] values
    rw [List.append_nil] at set
    rw [set]
    cases flag <;> rfl
  | unknown dash new => exact meaning_concat_unknown dash (by simpa [isKnown] using new) _ _

/-! ### Command lines -/

theorem of_mem_texts_scanFrom {waiting : Bool} {commandLine : List String}
    (scanned : text ∈ texts (scanFrom waiting commandLine)) :
    text ≠ "" ∧ text ∉ configSpellings := by
  induction commandLine generalizing waiting with
  | nil => cases waiting <;> cases scanned
  | cons first rest ih =>
    cases waiting with
    | true =>
      rw [scanFrom] at scanned
      exact ih scanned
    | false =>
      rw [scanFrom] at scanned
      split at scanned
      · exact ih scanned
      next noConfig =>
        split at scanned
        · exact ih scanned
        next filled =>
          rcases List.mem_cons.mp scanned with rfl | behind
          · exact ⟨filled, noConfig⟩
          · exact ih behind

/-- Without a request for a page, what is taken in is what the arguments mean. -/
theorem takeIn_meaning {scanned : List Scanned} {front : List String}
    (earlier : ∀ other ∈ front, other ≠ "")
    (scans : ∀ other ∈ texts scanned, other ≠ "" ∧ other ∉ configSpellings)
    (noPage : (texts scanned).findSome? page? = none) (before : List String) :
    (meaning front before).takeIn scanned =
      meaning (front ++ texts scanned) (before ++ values scanned) := by
  induction scanned generalizing front before with
  | nil => simp [takeIn, texts, values]
  | cons item rest ih =>
    cases item with
    | config value =>
      -- the value of a config option goes to the values, and the arguments stay
      have set : (meaning front before).setConfig value = meaning front (before ++ [value]) := by
        simp [setConfig, meaning]
      rw [takeIn, set, ih earlier scans noPage]
      simp [texts, values]
    | argument text =>
      obtain ⟨here, behind⟩ := List.forall_mem_cons.mp scans
      obtain ⟨noPageHere, noPageBehind⟩ : page? text = none ∧
          (texts rest).findSome? page? = none := by
        simpa [texts, List.findSome?_eq_none_iff] using noPage
      rw [takeIn, noPageHere, Option.getD_none, add_meaning before earlier here.1 here.2 noPageHere,
        ih _ behind noPageBehind]
      · simp [texts, values]
      · simpa [or_imp, forall_and, here.1] using earlier

/-- Reading gives the page that is asked for first, or else the meaning of the scanned arguments. -/
theorem read_eq (commandLine : List String) :
    read commandLine = ((texts (scan commandLine)).findSome? page?).getD
      (meaning (texts (scan commandLine)) (values (scan commandLine))) := by
  rw [read, (readFrom_eq_takeIn commandLine).1]
  cases asked : (texts (scan commandLine)).findSome? page? with
  | some page => exact takeIn_of_page asked {}
  | none =>
    have start : ({} : Arguments) = meaning [] [] := by decide
    rw [start, Option.getD_none]
    exact takeIn_meaning (by simp) (fun _ => of_mem_texts_scanFrom) asked []

/-- A flag in front of any argument that is scanned gives the same result as any other place. -/
theorem read_insert {flag : Flag} (named : text ∈ flag.spellings) {front : List String}
    (free : waitsBehind false front = false) (back : List String) :
    read (front ++ text :: back) = ((texts (scan (front ++ back))).findSome? page?).getD
      { meaning (texts (scan (front ++ back))) (values (scan (front ++ back))) with
        options := (meaning (texts (scan (front ++ back)))
          (values (scan (front ++ back)))).options.set flag } := by
  -- a flag neither waits for a value nor asks for a page
  have plain : text ≠ "" ∧ text ∉ configSpellings ∧ page? text = none := by
    have all : ∀ text ∈ flag.spellings,
        text ≠ "" ∧ text ∉ configSpellings ∧ page? text = none := by
      cases flag <;> decide
    exact all text named
  have here : scanFrom false (text :: back) = .argument text :: scan back := by
    rw [scanFrom, if_neg plain.2.1, if_neg plain.1, scan]
  rw [read_eq, scan, scan, scanFrom_append free, scanFrom_append free, here, scan]
  simp only [texts, values, List.filterMap_append, List.filterMap_cons, List.findSome?_append,
    List.findSome?_cons, plain.2.2]
  rw [meaning_insert named]

/-! ### Main theorem -/

/-- What a command line means is told by its scanned arguments. The first one that asks for a page
gives just this page. If there is none, the first two that are no options are the command and the
dump file, the last value of a config option is the configuration, a flag is given if one of its
spellings was scanned, and what is left over is unknown. A flag that is scanned may be moved to every
place where no config option waits, and one can only be waiting directly behind such an option. -/
theorem read_grammar (commandLine : List String) :
    (∀ page, (texts (scan commandLine)).findSome? page? = some page → read commandLine = page) ∧
    ((texts (scan commandLine)).findSome? page? = none →
      (read commandLine).command = ((texts (scan commandLine)).filter isPositional)[0]?.getD "" ∧
      (read commandLine).dumpFile = ((texts (scan commandLine)).filter isPositional)[1]? ∧
      (read commandLine).options.config = (values (scan commandLine)).getLast? ∧
      (∀ flag, (read commandLine).options.get flag = given (texts (scan commandLine)) flag) ∧
      (read commandLine).unknown = leftOver (texts (scan commandLine))) ∧
    (∀ (flag : Flag) (text : String) (front back front' back' : List String),
      text ∈ flag.spellings → commandLine = front ++ text :: back →
      waitsBehind false front = false → front' ++ back' = front ++ back →
      waitsBehind false front' = false → read (front' ++ text :: back') = read commandLine) ∧
    ∀ front, waitsBehind false front = true → ∃ last ∈ front.getLast?, last ∈ configSpellings := by
  refine ⟨fun page asked => ?_, fun noPage => ?_, ?_, fun front => mem_getLast?_of_waitsBehind⟩
  · rw [read_eq, asked, Option.getD_some]
  · rw [read_eq, noPage, Option.getD_none]
    refine ⟨rfl, rfl, rfl, fun flag => ?_, rfl⟩
    cases flag <;> rfl
  · rintro flag text front back front' back' named rfl free same free'
    rw [read_insert named free, read_insert named free', same]

/-- A line on which a config option takes the spelling of a help option, and another one nothing. -/
def mixedLine : List String :=
  ["-c", "-h", "", "classify", "--json", "a.yaml", "-x", "b.yaml", "-c"]

theorem read_grammar_mixedLine :
    (texts (scan mixedLine)).findSome? page? = none ∧
      (read mixedLine).command = "classify" ∧ (read mixedLine).dumpFile = some "a.yaml" ∧
      (read mixedLine).options.config = some "" ∧
      (∀ flag, (read mixedLine).options.get flag = if flag = .json then some true else none) ∧
      (read mixedLine).unknown = ["-x", "b.yaml"] ∧
      read ["-c", "-h", "--json", "", "classify", "a.yaml", "-x", "b.yaml", "-c"] =
        read mixedLine ∧
      read ["classify", "-x", "-v", "--json", "-h"] = { command := "version" } := by
  obtain ⟨-, fields, moved, -⟩ := read_grammar mixedLine
  have noPage : (texts (scan mixedLine)).findSome? page? = none := by decide
  obtain ⟨command, dumpFile, config, flags, unknown⟩ := fields noPage
  refine ⟨noPage, command.trans (by decide), dumpFile.trans (by decide), config.trans (by decide),
    fun flag => (flags flag).trans (by cases flag <;> decide), unknown.trans (by decide), ?_, ?_⟩
  · exact moved .json "--json" ["-c", "-h", "", "classify"] ["a.yaml", "-x", "b.yaml", "-c"]
      ["-c", "-h"] ["", "classify", "a.yaml", "-x", "b.yaml", "-c"] (by decide) rfl (by decide) rfl
      (by decide)
  · exact (read_grammar _).1 _ (by decide)

end Arguments

end MemberOrigin.Cli
