import TapeLife.Machine.Run

/-!
# Machine/Rules — the language of the tapes, rule by rule

`Machine.step` computes what an instruction does.  Here the same is said by rules, one for every way
in which an instruction can go, and an instruction is known by its symbol:

    <  >   move the data head               [   past the partner if the datum is zero
    {  }   move the channel head            ]   back to the partner if it is not
    +  -   add or take away one             (   load the datum into the accumulator
    .      copy data to channel             )   store the accumulator as the datum
    ,      copy channel to data             ?   draw a byte into the accumulator
                                            !   halt

A bracket goes to its partner on the tape as it is at that moment, and partners are known by what
stands between them (`Partners`), not by a count.

`Machine.Runs trace m m' why` says that the rules lead from `m` to `m'` through the machines of
`trace`, each about to execute an instruction; a rule that stops is the last.  What a run did can be
read off its trace (`Tally.ofTrace`).
-/

namespace TapeLife

variable {n : Nat}

/-- The symbols that are instructions. -/
def symbols : List Char :=
  ['<', '>', '{', '}', '+', '-', '.', ',', '[', ']', '(', ')', '?', '!']

/-- An opening and a closing bracket with complete groups between them. -/
structure Partners (memory : Vector UInt8 n) (o c : Fin n) : Prop where
  lt : o < c
  opens : memory[o] = Instruction.openByte
  closes : memory[c] = Instruction.closeByte
  balanced : Balanced (between memory.toList o c)

/-- The second place is to the right of the first, around the end. -/
def Follows (i j : Fin n) : Prop := (i.val + 1) % n = j.val

namespace Machine

/-- The symbol is next on the tape. -/
def Reads (m : Machine n) (symbol : Char) : Prop := m.memory.get m.place = symbol.toUInt8

instance (m : Machine n) (symbol : Char) : Decidable (m.Reads symbol) :=
  inferInstanceAs (Decidable (_ = _))

/-- What an instruction does that neither stops nor jumps, the place apart. -/
inductive Acts : Machine n → Machine n → Prop
  | head0Left {m : Machine n} {j : Fin n} :
      m.Reads '<' → Follows j m.head0 → Acts m { m with head0 := j }
  | head0Right {m : Machine n} {j : Fin n} :
      m.Reads '>' → Follows m.head0 j → Acts m { m with head0 := j }
  | head1Left {m : Machine n} {j : Fin n} :
      m.Reads '{' → Follows j m.head1 → Acts m { m with head1 := j }
  | head1Right {m : Machine n} {j : Fin n} :
      m.Reads '}' → Follows m.head1 j → Acts m { m with head1 := j }
  | increment {m : Machine n} : m.Reads '+' → Acts m (m.write m.head0 (m.datum + 1))
  | decrement {m : Machine n} : m.Reads '-' → Acts m (m.write m.head0 (m.datum - 1))
  | copyOut {m : Machine n} : m.Reads '.' → Acts m (m.write m.head1 m.datum)
  | copyIn {m : Machine n} : m.Reads ',' → Acts m (m.write m.head0 (m.memory.get m.head1))
  | load {m : Machine n} : m.Reads '(' → Acts m { m with acc := m.datum }
  | store {m : Machine n} : m.Reads ')' → Acts m (m.write m.head0 m.acc)
  | random {m : Machine n} :
      m.Reads '?' →
      Acts m { m with acc := (m.stream.output >>> 24).toUInt8, stream := m.stream.step }
  | idle {m : Machine n} : (∀ symbol ∈ symbols, ¬ m.Reads symbol) → Acts m m

/-- Going on from a place, or off the end of the tape. -/
inductive GoesOn (m : Machine n) (i : Fin n) : Machine n → Option Stop → Prop
  | next {j : Fin n} : j.val = i.val + 1 → GoesOn m i { m with place := j } none
  | ranOff : i.val + 1 = n → GoesOn m i m (some .ranOff)

/-- Executing one instruction. -/
inductive Rule : Machine n → Machine n → Option Stop → Prop
  | act {m m₁ m' : Machine n} {why : Option Stop} :
      Acts m m₁ → GoesOn m₁ m.place m' why → Rule m m' why
  | halt {m : Machine n} :
      m.Reads '!' → Rule m m (some .halted)
  | enter {m m' : Machine n} {why : Option Stop} :
      m.Reads '[' → m.datum ≠ 0 → GoesOn m m.place m' why → Rule m m' why
  | skip {m m' : Machine n} {why : Option Stop} {c : Fin n} :
      m.Reads '[' → m.datum = 0 → Partners m.memory m.place c →
      GoesOn m c m' why → Rule m m' why
  | skipNowhere {m : Machine n} :
      m.Reads '[' → m.datum = 0 →
      (∀ c, ¬ Partners m.memory m.place c) → Rule m m (some .unmatched)
  | leave {m m' : Machine n} {why : Option Stop} :
      m.Reads ']' → m.datum = 0 → GoesOn m m.place m' why → Rule m m' why
  | again {m m' : Machine n} {why : Option Stop} {o : Fin n} :
      m.Reads ']' → m.datum ≠ 0 → Partners m.memory o m.place →
      GoesOn m o m' why → Rule m m' why
  | againNowhere {m : Machine n} :
      m.Reads ']' → m.datum ≠ 0 →
      (∀ o, ¬ Partners m.memory o m.place) → Rule m m (some .unmatched)

/-- Executing some instructions. -/
inductive Runs : List (Machine n) → Machine n → Machine n → Option Stop → Prop
  | rest {m : Machine n} : Runs [] m m none
  | more {trace : List (Machine n)} {m m₁ m' : Machine n} {why : Option Stop} :
      Rule m m₁ none → Runs trace m₁ m' why → Runs (m :: trace) m m' why
  | stop {m m' : Machine n} {why : Stop} :
      Rule m m' (some why) → Runs [m] m m' (some why)

/-- The next instruction does something. -/
def IsActive (m : Machine n) : Prop := ∃ symbol ∈ symbols, m.Reads symbol

instance (m : Machine n) : Decidable m.IsActive :=
  inferInstanceAs (Decidable (∃ symbol ∈ symbols, m.Reads symbol))

/-- The next instruction writes on the neighbour's tape. -/
def WritesNeighbour (m : Machine n) : Prop :=
  (m.Reads '+' ∨ m.Reads '-' ∨ m.Reads ',' ∨ m.Reads ')') ∧ tapeSize ≤ m.head0.val ∨
    m.Reads '.' ∧ tapeSize ≤ m.head1.val

instance (m : Machine n) : Decidable m.WritesNeighbour :=
  inferInstanceAs (Decidable (_ ∨ _))

end Machine

/-- What the instructions of a trace did. -/
def Tally.ofTrace (trace : List (Machine n)) : Tally where
  steps := trace.length
  ops := trace.countP (·.IsActive)
  skipped := trace.countP (¬ ·.IsActive)
  halted := trace.any (·.Reads '!')
  channelWrites := trace.countP (·.WritesNeighbour)
  randomDraws := trace.countP (·.Reads '?')

end TapeLife
