import Mathlib.Data.List.TakeWhile
import PennSearch.Search.Handlers

/-!
# The script loop of `SimulatorMain::Start`

The loop reads a scenario script line by line. The tokens of a line are appended
to the member `m_tokens`, which a malformed `TIME` line does not clear, so the
lines after it are read together with it. `ProcessCommandTokens` and `Reschedule`
are represented by their calls.

A `Time` is the number of nanoseconds that its integer part holds; it is read as
an unsigned number, and no fraction arises here.
-/

namespace PennSearch

/-! ## Text and time -/

/-- `std::toupper` of one character. -/
def toUpper (c : UInt8) : UInt8 := if 97 ≤ c ∧ c ≤ 122 then c - 32 else c

def upperCase (str : CxxString) : CxxString := str.map toUpper

def timeWord : CxxString := [84, 73, 77, 69]

def isDigit (c : UInt8) : Bool := 48 ≤ c ∧ c ≤ 57

def isSpace (c : UInt8) : Bool := c = 32 ∨ 9 ≤ c ∧ c ≤ 13

def decimalValue (digits : CxxString) : ℕ :=
  digits.foldl (fun value c => 10 * value + (c.toNat - 48)) 0

/-- The digits at the front of a text as a `uint64_t`: 0 when there are none, and
the greatest one when the number is larger. -/
def digitsValue (str : CxxString) : UInt64 :=
  let value := decimalValue (str.takeWhile isDigit)
  if 2 ^ 64 ≤ value then UInt64.ofNat (2 ^ 64 - 1) else UInt64.ofNat value

/-- `sin >> delta` for a `uint64_t`. A minus sign negates in that type, except for
a number that is too large. -/
def extract (str : CxxString) : UInt64 :=
  match str.dropWhile isSpace with
  | 45 :: rest =>
      if 2 ^ 64 ≤ decimalValue (rest.takeWhile isDigit) then digitsValue rest
      else 0 - digitsValue rest
  | 43 :: rest => digitsValue rest
  | rest => digitsValue rest

def milliSeconds (ms : UInt64) : UInt64 := ms * 1000000

/-- `Time::GetMilliSeconds`. It is far below the range of its `int64_t`. -/
def getMilliSeconds (time : UInt64) : UInt64 := time / 1000000

/-! ## The loop -/

/-- What the loop changes: `m_tokens`, and the variable `time`. -/
structure ScriptState where
  tokens : List CxxString
  time : UInt64

inductive ScriptCall
  | reschedule (tokens : List CxxString) (time : UInt64)
  | processCommandTokens (tokens : List CxxString) (time : UInt64)
deriving DecidableEq

def startTime : UInt64 := 0

/-- A round of the loop once `Tokenize` has appended the tokens of a line. -/
def ScriptState.round (s : ScriptState) (appended : List CxxString) :
    ScriptState × List ScriptCall :=
  match s.tokens ++ appended with
  | [] => (⟨[], s.time⟩, [])
  | first :: rest =>
      let tokens := upperCase first :: rest
      if upperCase first = timeWord then
        match rest with
        | [argument] =>
            (⟨[], milliSeconds (getMilliSeconds s.time + extract argument)⟩, [])
        | _ => (⟨tokens, s.time⟩, [])
      else if getMilliSeconds s.time < startTime then (⟨[], s.time⟩, [])
      else if getMilliSeconds s.time = startTime then (⟨[], s.time⟩, [.reschedule tokens s.time])
      else (⟨[], s.time⟩, [.processCommandTokens tokens (milliSeconds (getMilliSeconds s.time))])

def ScriptState.startLoop (s : ScriptState) : List CxxString → List ScriptCall
  | [] => []
  | commandLine :: lines =>
      if commandLine = [] then s.startLoop lines
      else
        let (s', calls) := s.round (tokenizer commandLine [32])
        calls ++ s'.startLoop lines

/-- The part of `Start` that processes a script file with these lines. -/
def SimulatorMain.start (lines : List CxxString) : List ScriptCall :=
  ScriptState.startLoop ⟨[], milliSeconds 0⟩ lines

def ScriptCall.handed : ScriptCall → List CxxString × ℕ
  | .reschedule tokens time => (tokens, (getMilliSeconds time).toNat)
  | .processCommandTokens tokens time => (tokens, (getMilliSeconds time).toNat)

/-! ## What a script says -/

def scriptTokens (lines : List CxxString) : List (List CxxString) :=
  (lines.map fun line => tokenizer line [32]).filter (· ≠ [])

def IsTimeLine (line : List CxxString) : Prop := (line.head?.map upperCase) = some timeWord

instance (line : List CxxString) : Decidable (IsTimeLine line) :=
  inferInstanceAs (Decidable (_ = _))

/-- The argument of a well-formed `TIME` line; a malformed one counts nothing. -/
def timeArgument : List CxxString → ℕ
  | [_, argument] => decimalValue argument
  | _ => 0

def commandTokens : List CxxString → List CxxString
  | [] => []
  | first :: arguments => upperCase first :: arguments

/-- The commands of the lines, each with the sum of the arguments of the
well-formed `TIME` lines before it, counted from `sum`. -/
def commandsFrom (sum : ℕ) : List (List CxxString) → List (List CxxString × ℕ)
  | [] => []
  | line :: rest =>
      if IsTimeLine line then commandsFrom (sum + timeArgument line) rest
      else (commandTokens line, sum) :: commandsFrom sum rest

/-- The argument of every `TIME` line of two tokens is a number. -/
def NumericTimes (lines : List (List CxxString)) : Prop :=
  ∀ word argument, [word, argument] ∈ lines → upperCase word = timeWord →
    argument ≠ [] ∧ ∀ c ∈ argument, isDigit c = true

/-- The number of milliseconds from which on `MilliSeconds` wraps around. -/
def timeBound : ℕ := 18446744073710

/-- Lines that `m_tokens` does not carry over into one another: commands at
times below `timeBound`, well-formed `TIME` lines, and lone `TIME` words in
pairs. What follows the last command does not matter. -/
inductive Separate : ℕ → List (List CxxString) → Prop
  | ended {sum : ℕ} {rest : List (List CxxString)} (times : ∀ line ∈ rest, IsTimeLine line) :
      Separate sum rest
  | command {sum : ℕ} {line : List CxxString} {rest : List (List CxxString)}
      (command : ¬ IsTimeLine line) (early : sum < timeBound) (next : Separate sum rest) :
      Separate sum (line :: rest)
  | time {sum : ℕ} {word argument : CxxString} {rest : List (List CxxString)}
      (isTime : upperCase word = timeWord) (next : Separate (sum + decimalValue argument) rest) :
      Separate sum ([word, argument] :: rest)
  | pair {sum : ℕ} {word word' : CxxString} {rest : List (List CxxString)}
      (isTime : upperCase word = timeWord) (isTime' : upperCase word' = timeWord)
      (next : Separate sum rest) : Separate sum ([word] :: [word'] :: rest)

/-! ## Times -/

theorem upperCase_timeWord : upperCase timeWord = timeWord := by decide

theorem toNat_getMilliSeconds (time : UInt64) :
    (getMilliSeconds time).toNat = time.toNat / 1000000 := by
  rw [getMilliSeconds, UInt64.toNat_div]
  rfl

theorem getMilliSeconds_lt (time : UInt64) : (getMilliSeconds time).toNat < timeBound := by
  have htime : time.toNat < 2 ^ 64 := time.toNat_lt
  rw [toNat_getMilliSeconds, timeBound]
  omega

theorem getMilliSeconds_milliSeconds {ms : UInt64} (h : ms.toNat < timeBound) :
    getMilliSeconds (milliSeconds ms) = ms := by
  rw [timeBound] at h
  apply UInt64.toNat_inj.mp
  rw [toNat_getMilliSeconds, milliSeconds, UInt64.toNat_mul]
  change ms.toNat * 1000000 % 2 ^ 64 / 1000000 = ms.toNat
  omega

theorem extract_cons {c : UInt8} (hc : 48 ≤ c.toNat) (rest : CxxString) :
    extract (c :: rest) = digitsValue (c :: rest) := by
  have hspace : isSpace c = false := by
    simp only [isSpace, decide_eq_false_iff_not, UInt8.le_iff_toNat_le, ← UInt8.toNat_inj]
    change ¬ (c.toNat = 32 ∨ 9 ≤ c.toNat ∧ c.toNat ≤ 13)
    omega
  have hsign : ∀ sign : UInt8, sign.toNat < 48 → c ≠ sign := by
    rintro sign hlt rfl
    omega
  unfold extract
  rw [List.dropWhile_cons_of_neg (by simp [hspace])]
  split
  · rename_i heq
    exact absurd (List.cons.inj heq).1 (hsign 45 (by decide))
  · rename_i heq
    exact absurd (List.cons.inj heq).1 (hsign 43 (by decide))
  · rfl

theorem extract_of_digits {argument : CxxString} (hne : argument ≠ [])
    (h : ∀ c ∈ argument, isDigit c = true) :
    extract argument = if 2 ^ 64 ≤ decimalValue argument then UInt64.ofNat (2 ^ 64 - 1)
      else UInt64.ofNat (decimalValue argument) := by
  obtain ⟨c, rest, rfl⟩ := List.exists_cons_of_ne_nil hne
  have hdigit := h c List.mem_cons_self
  simp only [isDigit, decide_eq_true_eq] at hdigit
  rw [extract_cons (UInt8.le_iff_toNat_le.mp hdigit.1), digitsValue,
    List.takeWhile_eq_self_iff.mpr h]

theorem extract_timeWord {word : CxxString} (h : upperCase word = timeWord) : extract word = 0 := by
  obtain ⟨c, rest, rfl, hc, -⟩ := List.map_eq_cons_iff.mp h
  have hletter : 58 ≤ c.toNat := by
    unfold toUpper at hc
    split at hc
    · rename_i hlower
      exact le_trans (by decide) (UInt8.le_iff_toNat_le.mp hlower.1)
    · rw [hc]
      decide
  have hdigit : isDigit c = false := by
    simp only [isDigit, decide_eq_false_iff_not, UInt8.le_iff_toNat_le]
    change ¬ (48 ≤ c.toNat ∧ c.toNat ≤ 57)
    omega
  rw [extract_cons (by omega), digitsValue, List.takeWhile_cons_of_neg (by simp [hdigit])]
  rfl

/-! ## One round -/

theorem isTimeLine_cons {word : CxxString} {rest : List CxxString} :
    IsTimeLine (word :: rest) ↔ upperCase word = timeWord := by
  simp [IsTimeLine]

namespace ScriptState

variable {s : ScriptState} {line : List CxxString} {word argument : CxxString}
  {rest : List CxxString}

/-- `m_tokens` holds nothing, or a `TIME` line that is not well-formed. -/
def Regular (s : ScriptState) : Prop :=
  s.tokens = [] ∨ ∃ rest, s.tokens = timeWord :: rest ∧ rest.length ≠ 1

theorem Regular.round_nil (h : s.Regular) : s.round [] = (s, []) := by
  obtain ⟨tokens, time⟩ := s
  rcases h with h | ⟨rest, h, hlen⟩
  · obtain rfl : tokens = [] := h
    rfl
  · obtain rfl : tokens = timeWord :: rest := h
    simp only [round, List.append_nil, upperCase_timeWord, if_true]
    split
    · exact absurd rfl hlen
    · rfl

theorem regular_round (s : ScriptState) (line : List CxxString) : (s.round line).1.Regular := by
  unfold round
  split
  · exact Or.inl rfl
  · rename_i first rest _
    split
    · rename_i htime
      split
      · exact Or.inl rfl
      · rename_i hnot
        refine Or.inr ⟨rest, by rw [htime], fun hlen => ?_⟩
        obtain ⟨argument, rfl⟩ := List.length_eq_one_iff.mp hlen
        exact hnot argument rfl
    · split
      · exact Or.inl rfl
      · split
        · exact Or.inl rfl
        · exact Or.inl rfl

def rounds (s : ScriptState) : List (List CxxString) → List ScriptCall
  | [] => []
  | line :: lines => (s.round line).2 ++ (s.round line).1.rounds lines

/-- The loop depends on the lines with tokens alone. -/
theorem Regular.startLoop_eq (h : s.Regular) (lines : List CxxString) :
    s.startLoop lines = s.rounds (scriptTokens lines) := by
  induction lines generalizing s with
  | nil => rfl
  | cons commandLine lines ih =>
      by_cases hnil : tokenizer commandLine [32] = []
      · have htokens : scriptTokens (commandLine :: lines) = scriptTokens lines := by
          simp [scriptTokens, hnil]
        rw [htokens, ← ih h, startLoop]
        split
        · rfl
        · rw [hnil, h.round_nil]
          rfl
      · have htokens : scriptTokens (commandLine :: lines) =
            tokenizer commandLine [32] :: scriptTokens lines := by
          simp [scriptTokens, hnil]
        have hline : commandLine ≠ [] := by
          rintro rfl
          exact hnil rfl
        rw [htokens, startLoop, if_neg hline, rounds, ← ih (s.regular_round _)]

/-! ## The lines, by what is left in `m_tokens` -/

section Rounds

variable {time : UInt64} {lines : List (List CxxString)}

theorem rounds_command (hword : upperCase word ≠ timeWord) :
    ((⟨[], time⟩ : ScriptState).rounds ((word :: rest) :: lines)).map ScriptCall.handed =
      (upperCase word :: rest, (getMilliSeconds time).toNat) ::
        ((⟨[], time⟩ : ScriptState).rounds lines).map ScriptCall.handed := by
  have hearly : ¬ getMilliSeconds time < startTime := UInt64.not_lt_zero
  have hsame : getMilliSeconds (milliSeconds (getMilliSeconds time)) = getMilliSeconds time :=
    getMilliSeconds_milliSeconds (getMilliSeconds_lt time)
  simp only [rounds, round, List.nil_append, if_neg hword, if_neg hearly]
  split
  · rfl
  · simp [ScriptCall.handed, hsame]

/-- A word `TIME` and one more token, of the same line or of the next one. -/
theorem rounds_time (hword : upperCase word = timeWord) :
    (⟨[], time⟩ : ScriptState).rounds ([word, argument] :: lines) =
      (⟨[], milliSeconds (getMilliSeconds time + extract argument)⟩ : ScriptState).rounds
        lines := by
  simp [rounds, round, hword]

theorem rounds_lone (hword : upperCase word = timeWord) :
    (⟨[], time⟩ : ScriptState).rounds ([word] :: lines) =
      (⟨[timeWord], time⟩ : ScriptState).rounds lines := by
  simp [rounds, round, hword]

theorem rounds_lone_one :
    (⟨[timeWord], time⟩ : ScriptState).rounds ([argument] :: lines) =
      (⟨[], milliSeconds (getMilliSeconds time + extract argument)⟩ : ScriptState).rounds
        lines := by
  simp [rounds, round, upperCase_timeWord]

/-- Three tokens are never cleared. -/
theorem rounds_stuck (lines : List (List CxxString)) : ∀ (first second : CxxString)
    (rest : List CxxString),
    (⟨timeWord :: first :: second :: rest, time⟩ : ScriptState).rounds lines = [] := by
  induction lines with
  | nil => exact fun _ _ _ => rfl
  | cons line lines ih =>
      intro first second rest
      simp only [rounds, round, List.cons_append, upperCase_timeWord, if_true, List.nil_append]
      exact ih _ _ _

theorem rounds_long (hword : upperCase word = timeWord) (first second : CxxString) :
    (⟨[], time⟩ : ScriptState).rounds ((word :: first :: second :: rest) :: lines) = [] := by
  simp only [rounds, round, List.nil_append, hword, if_true]
  exact rounds_stuck lines _ _ _

theorem rounds_lone_long (first second : CxxString) :
    (⟨[timeWord], time⟩ : ScriptState).rounds ((first :: second :: rest) :: lines) = [] := by
  simp only [rounds, round, List.cons_append, List.nil_append, upperCase_timeWord, if_true]
  exact rounds_stuck lines _ _ _

/-- Only a command line makes a round call something. -/
theorem Regular.length_round_le (h : s.Regular) (line : List CxxString) :
    (s.round line).2.length ≤ if IsTimeLine line then 0 else 1 := by
  obtain ⟨tokens, time⟩ := s
  rcases h with h | ⟨rest, h, -⟩
  · obtain rfl : tokens = [] := h
    cases line with
    | nil => simp [round]
    | cons word rest =>
        simp only [round, List.nil_append, isTimeLine_cons]
        split
        · split <;> simp
        · split
          · simp
          · split <;> simp
  · obtain rfl : tokens = timeWord :: rest := h
    simp only [round, List.cons_append, upperCase_timeWord, if_true]
    split <;> simp

theorem Regular.length_rounds_le (h : s.Regular) (lines : List (List CxxString)) :
    (s.rounds lines).length ≤ lines.countP fun line => ¬ IsTimeLine line := by
  induction lines generalizing s with
  | nil => simp [rounds]
  | cons line lines ih =>
      have hround := h.length_round_le line
      have hrest := ih (s.regular_round line)
      rw [rounds, List.length_append, List.countP_cons]
      by_cases hline : IsTimeLine line
      · simp only [hline, if_true] at hround
        simp only [hline]
        simp only [not_true_eq_false, decide_false, Bool.false_eq_true, if_false]
        omega
      · simp only [hline, if_false] at hround
        simp only [hline, not_false_eq_true, decide_true, if_true]
        omega

end Rounds

end ScriptState

/-! ## Commands and separate lines -/

section Commands

variable {sum : ℕ} {line : List CxxString} {word word' argument : CxxString}
  {rest : List CxxString} {lines : List (List CxxString)}

theorem commandsFrom_command (hword : upperCase word ≠ timeWord) :
    commandsFrom sum ((word :: rest) :: lines) =
      (upperCase word :: rest, sum) :: commandsFrom sum lines := by
  rw [commandsFrom, if_neg (by rwa [isTimeLine_cons])]
  rfl

theorem commandsFrom_time (hword : upperCase word = timeWord) :
    commandsFrom sum ([word, argument] :: lines) =
      commandsFrom (sum + decimalValue argument) lines := by
  rw [commandsFrom, if_pos (by rwa [isTimeLine_cons])]
  rfl

theorem commandsFrom_lone (hword : upperCase word = timeWord) :
    commandsFrom sum ([word] :: lines) = commandsFrom sum lines := by
  rw [commandsFrom, if_pos (by rwa [isTimeLine_cons])]
  rfl

theorem commandsFrom_length (lines : List (List CxxString)) (sum : ℕ) :
    (commandsFrom sum lines).length = lines.countP fun line => ¬ IsTimeLine line := by
  induction lines generalizing sum with
  | nil => rfl
  | cons line lines ih =>
      by_cases hline : IsTimeLine line
      · simp [commandsFrom, hline, ih]
      · simp [commandsFrom, hline, ih]

theorem commandsFrom_eq_nil_iff :
    commandsFrom sum lines = [] ↔ ∀ line ∈ lines, IsTimeLine line := by
  rw [← List.length_eq_zero_iff, commandsFrom_length, List.countP_eq_zero]
  simp

theorem separate_time_iff (hword : upperCase word = timeWord) :
    Separate sum ([word, argument] :: lines) ↔ Separate (sum + decimalValue argument) lines := by
  constructor
  · intro h
    cases h with
    | ended times => exact .ended fun line hline => times line (List.mem_cons_of_mem _ hline)
    | command command early next => exact absurd (isTimeLine_cons.mpr hword) command
    | time isTime next => exact next
  · exact .time hword

theorem separate_command_iff (hword : upperCase word ≠ timeWord) :
    Separate sum ((word :: rest) :: lines) ↔ sum < timeBound ∧ Separate sum lines := by
  constructor
  · intro h
    cases h with
    | ended times => exact absurd (isTimeLine_cons.mp (times _ List.mem_cons_self)) hword
    | command command early next => exact ⟨early, next⟩
    | time isTime next => exact absurd isTime hword
    | pair isTime isTime' next => exact absurd isTime hword
  · rintro ⟨early, next⟩
    exact .command (fun h => hword (isTimeLine_cons.mp h)) early next

theorem separate_pair_iff (hword : upperCase word = timeWord)
    (hword' : upperCase word' = timeWord) :
    Separate sum ([word] :: [word'] :: lines) ↔ Separate sum lines := by
  constructor
  · intro h
    cases h with
    | ended times =>
        exact .ended fun line hline =>
          times line (List.mem_cons_of_mem _ (List.mem_cons_of_mem _ hline))
    | command command early next => exact absurd (isTimeLine_cons.mpr hword) command
    | pair isTime isTime' next => exact next
  · exact .pair hword hword'

/-- After a malformed `TIME` line that is not one of a pair no command may follow. -/
theorem separate_malformed_iff (hline : IsTimeLine line) (hlen : line.length ≠ 2)
    (hpair : line.length = 1 → ∀ word', lines.head? = some [word'] → upperCase word' ≠ timeWord) :
    Separate sum (line :: lines) ↔ ∀ line ∈ lines, IsTimeLine line := by
  constructor
  · intro h
    cases h with
    | ended times => exact fun line hline => times line (List.mem_cons_of_mem _ hline)
    | command command early next => exact absurd hline command
    | time isTime next => exact absurd rfl hlen
    | pair isTime isTime' next => exact absurd isTime' (hpair rfl _ rfl)
  · intro h
    refine .ended fun line' hline' => ?_
    rcases List.mem_cons.mp hline' with rfl | hline'
    · exact hline
    · exact h line' hline'

end Commands

/-! ## Scripts -/

/-- `time` is the sum so far, unless the sum has passed the bound. -/
def Agrees (time : UInt64) (sum : ℕ) : Prop := sum < timeBound → (getMilliSeconds time).toNat = sum

theorem Agrees.add {time : UInt64} {sum : ℕ} (h : Agrees time sum) {argument : CxxString}
    (hvalue : extract argument = if 2 ^ 64 ≤ decimalValue argument then UInt64.ofNat (2 ^ 64 - 1)
      else UInt64.ofNat (decimalValue argument)) :
    Agrees (milliSeconds (getMilliSeconds time + extract argument))
      (sum + decimalValue argument) := by
  intro hlt
  have hbound : timeBound < 2 ^ 64 := by decide
  have hsum := h (by omega)
  have hext : (extract argument).toNat = decimalValue argument := by
    have hsize : decimalValue argument < UInt64.size := by
      rw [show UInt64.size = 2 ^ 64 from rfl]
      omega
    rw [hvalue, if_neg (by omega), UInt64.toNat_ofNat_of_lt' hsize]
  have htotal : (getMilliSeconds time + extract argument).toNat = sum + decimalValue argument := by
    rw [UInt64.toNat_add, hsum, hext, Nat.mod_eq_of_lt (by omega)]
  rw [getMilliSeconds_milliSeconds (by omega), htotal]

theorem Agrees.add_zero {time : UInt64} {sum : ℕ} (h : Agrees time sum) :
    Agrees (milliSeconds (getMilliSeconds time + 0)) sum := by
  intro hlt
  rw [UInt64.add_zero, getMilliSeconds_milliSeconds (getMilliSeconds_lt time), h hlt]

theorem handed_ne_of_lt {calls : List ScriptCall} {sum : ℕ} {lines : List (List CxxString)}
    (h : calls.length < lines.countP fun line => ¬ IsTimeLine line) :
    calls.map ScriptCall.handed ≠ commandsFrom sum lines := by
  intro heq
  have hlen := congrArg List.length heq
  rw [List.length_map, commandsFrom_length] at hlen
  omega

theorem rounds_lone_iff {time : UInt64} {sum : ℕ} {word : CxxString}
    {lines : List (List CxxString)} (hword : upperCase word = timeWord)
    (hne : ∀ line ∈ lines, line ≠ [])
    (ih : ∀ word' rest, lines = [word'] :: rest → upperCase word' = timeWord →
      ((((⟨[], milliSeconds (getMilliSeconds time + 0)⟩ : ScriptState).rounds rest).map
          ScriptCall.handed = commandsFrom sum rest) ↔ Separate sum rest)) :
    ((⟨[timeWord], time⟩ : ScriptState).rounds lines).map ScriptCall.handed =
        commandsFrom sum lines ↔ Separate sum ([word] :: lines) := by
  have htime : IsTimeLine [word] := isTimeLine_cons.mpr hword
  cases lines with
  | nil =>
      refine iff_of_true rfl (.ended fun line hline => ?_)
      rwa [List.mem_singleton.mp hline]
  | cons line rest =>
      match line, hne line List.mem_cons_self with
      | [word'], _ =>
          rw [ScriptState.rounds_lone_one]
          by_cases hword' : upperCase word' = timeWord
          · rw [separate_pair_iff hword hword', commandsFrom_lone hword', extract_timeWord hword']
            exact ih word' rest rfl hword'
          · -- the command is taken for the missing argument
            have hcommand : ¬ IsTimeLine [word'] := fun h => hword' (isTimeLine_cons.mp h)
            have hregular : ∀ time, (⟨[], time⟩ : ScriptState).Regular := fun _ => Or.inl rfl
            have hpair : ∀ word'', ([word'] :: rest).head? = some [word''] →
                upperCase word'' ≠ timeWord := by
              rintro word'' heq
              obtain rfl := List.cons.inj (Option.some.inj heq) |>.1
              exact hword'
            rw [separate_malformed_iff htime (by simp) fun _ => hpair]
            refine iff_of_false (handed_ne_of_lt ?_) fun h => hcommand (h _ List.mem_cons_self)
            rw [List.countP_cons, if_pos (by simpa using hcommand)]
            exact Nat.lt_succ_of_le ((hregular _).length_rounds_le rest)
      | first :: second :: tail, _ =>
          rw [ScriptState.rounds_lone_long, List.map_nil, eq_comm, commandsFrom_eq_nil_iff,
            separate_malformed_iff htime (by simp) fun _ word' heq => by simp at heq]

theorem rounds_iff {lines : List (List CxxString)} (hne : ∀ line ∈ lines, line ≠ [])
    (hnum : NumericTimes lines) {time : UInt64} {sum : ℕ} (hagrees : Agrees time sum) :
    ((⟨[], time⟩ : ScriptState).rounds lines).map ScriptCall.handed = commandsFrom sum lines ↔
      Separate sum lines := by
  induction hlen : lines.length using Nat.strongRecOn generalizing lines time sum with
  | _ len ih =>
      cases lines with
      | nil => exact iff_of_true rfl (.ended fun line hline => by cases hline)
      | cons line rest =>
          have hne' : ∀ line ∈ rest, line ≠ [] := fun l hl => hne l (List.mem_cons_of_mem _ hl)
          have hnum' : NumericTimes rest :=
            fun word argument hmem => hnum word argument (List.mem_cons_of_mem _ hmem)
          have hlt : rest.length < len := by
            rw [← hlen, List.length_cons]
            exact Nat.lt_succ_self _
          obtain ⟨word, tokens, rfl⟩ := List.exists_cons_of_ne_nil (hne line List.mem_cons_self)
          by_cases hword : upperCase word = timeWord
          · match tokens with
            | [] =>
                rw [ScriptState.rounds_lone hword, commandsFrom_lone hword]
                refine rounds_lone_iff hword hne' ?_
                rintro word' rest' rfl hword'
                refine ih _ (Nat.lt_trans (Nat.lt_succ_self _) hlt)
                  (fun l hl => hne' l (List.mem_cons_of_mem _ hl))
                  (fun w a hmem => hnum' w a (List.mem_cons_of_mem _ hmem)) hagrees.add_zero rfl
            | [argument] =>
                obtain ⟨hsome, hdigits⟩ := hnum word argument List.mem_cons_self hword
                rw [ScriptState.rounds_time hword, commandsFrom_time hword,
                  separate_time_iff hword]
                exact ih _ hlt hne' hnum' (hagrees.add (extract_of_digits hsome hdigits)) rfl
            | first :: second :: tail =>
                have htime : IsTimeLine (word :: first :: second :: tail) :=
                  isTimeLine_cons.mpr hword
                rw [ScriptState.rounds_long hword, List.map_nil, eq_comm, commandsFrom,
                  if_pos htime, commandsFrom_eq_nil_iff,
                  separate_malformed_iff htime (by simp) (by simp)]
          · rw [ScriptState.rounds_command hword, commandsFrom_command hword,
              separate_command_iff hword, List.cons.injEq, Prod.mk.injEq, and_iff_right rfl]
            refine and_congr ⟨fun heq => ?_, fun hearly => hagrees hearly⟩
              (ih _ hlt hne' hnum' hagrees rfl)
            rw [← heq]
            exact getMilliSeconds_lt time

/-- The calls of the script loop are the commands of the lines, each with its own
tokens and the sum of the times before it, exactly when the lines are separate. -/
theorem script_lines_independent_iff (lines : List CxxString)
    (hnum : NumericTimes (scriptTokens lines)) :
    (SimulatorMain.start lines).map ScriptCall.handed = commandsFrom 0 (scriptTokens lines) ↔
      Separate 0 (scriptTokens lines) := by
  have hne : ∀ line ∈ scriptTokens lines, line ≠ [] := by
    intro line hline
    simpa using (List.mem_filter.mp hline).2
  have hregular : (⟨[], milliSeconds 0⟩ : ScriptState).Regular := Or.inl rfl
  rw [SimulatorMain.start, hregular.startLoop_eq]
  exact rounds_iff hne hnum fun _ => rfl

/-- `TIME 10`, `quit`, and the empty line after the last line end. -/
def sampleScript : List CxxString :=
  [[84, 73, 77, 69, 32, 49, 48], [113, 117, 105, 116], []]

theorem scriptTokens_sampleScript : scriptTokens sampleScript =
    [[timeWord, [49, 48]], [[113, 117, 105, 116]]] := by decide

theorem script_lines_independent_sample :
    NumericTimes (scriptTokens sampleScript) ∧
      ((SimulatorMain.start sampleScript).map ScriptCall.handed =
        commandsFrom 0 (scriptTokens sampleScript) ↔
          Separate 0 (scriptTokens sampleScript)) := by
  have hnum : NumericTimes (scriptTokens sampleScript) := by
    rw [scriptTokens_sampleScript]
    intro word argument hmem _
    obtain ⟨-, rfl⟩ : word = timeWord ∧ argument = [49, 48] := by simpa using hmem
    exact ⟨List.cons_ne_nil _ _, List.all_eq_true.mp rfl⟩
  exact ⟨hnum, script_lines_independent_iff sampleScript hnum⟩

/-- `TIME`, `LINK DOWN 6`, `QUIT`. -/
def swallowingScript : List CxxString :=
  [timeWord, [76, 73, 78, 75, 32, 68, 79, 87, 78, 32, 54], [81, 85, 73, 84], []]

theorem scriptTokens_swallowingScript : scriptTokens swallowingScript =
    [[timeWord], [[76, 73, 78, 75], [68, 79, 87, 78], [54]], [[81, 85, 73, 84]]] := by
  decide

/-- After a `TIME` line without an argument no command is called any more. -/
theorem malformed_time_swallows :
    NumericTimes (scriptTokens swallowingScript) ∧
      (SimulatorMain.start swallowingScript).map ScriptCall.handed = [] ∧
      commandsFrom 0 (scriptTokens swallowingScript) =
        [([[76, 73, 78, 75], [68, 79, 87, 78], [54]], 0), ([[81, 85, 73, 84]], 0)] := by
  have hsilent : (SimulatorMain.start swallowingScript).map ScriptCall.handed = [] := by decide
  have hown : commandsFrom 0 (scriptTokens swallowingScript) =
      [([[76, 73, 78, 75], [68, 79, 87, 78], [54]], 0), ([[81, 85, 73, 84]], 0)] := by
    rw [scriptTokens_swallowingScript]
    decide
  refine ⟨fun word argument hmem => ?_, hsilent, hown⟩
  rw [scriptTokens_swallowingScript] at hmem
  simp at hmem

end PennSearch
