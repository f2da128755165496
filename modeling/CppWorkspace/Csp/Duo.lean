import CppWorkspace.Lib.ProcessNetwork
import CppWorkspace.Lib.SignedInt
import CppWorkspace.Lib.TextStream

/-!
`csp_duo.cpp`: two coroutines that communicate over two channels. In the first
demo they take turns at printing, in the second one keeps a total and answers the
other, in the fourth the consumer tells the producer how much it may send. The
limits, the deltas and the capacities are parameters; the loop counters are
bounded by them.
-/

namespace CppWorkspace.Csp.CspDuo

open Lib TextStream

abbrev Text := List Char

/-- Where a coroutine is and the lines that it has printed. -/
structure Coroutine (Pc : Type) where
  pc : Pc
  output : List Text := []

/-! ## Alternation -/

inductive Printer where
  | odd
  | even
deriving DecidableEq, Repr

/-- The channels, named by the coroutine that receives. -/
inductive Baton where
  | toEven
  | toOdd
deriving DecidableEq, Repr

inductive OddPc where
  /-- At the head of the loop. -/
  | looping (value : ℤ)
  | sending (next : ℤ)
  | receiving
  | returned
  | threw
  | undefined
deriving DecidableEq, Repr

inductive EvenPc where
  | receiving
  | sending (next : ℤ)
  | closing
  | returned
  | threw
  | undefined
deriving DecidableEq, Repr

def oddText (value : ℤ) : Text := "  [odd ] prints ".toList ++ showInt value ++ ['\n']

def evenText (value : ℤ) : Text := "  [even] prints ".toList ++ showInt value ++ ['\n']

def oddDone : Text := "  [odd ] done\n".toList

def evenDone : Text := "  [even] done\n".toList

/-- `value + 1` is evaluated for the send. -/
def OddPc.afterPrint (value : ℤ) : OddPc :=
  match int (value + 1) with
  | some next => .sending next
  | none => .undefined

def EvenPc.afterPrint (limit value : ℤ) : EvenPc :=
  match int (value + 1) with
  | some next => if next ≤ limit then .sending next else .closing
  | none => .undefined

def oddPrinter : Coroutine OddPc → Action (fun _ : Baton => ℤ) (Coroutine OddPc)
  | ⟨.looping value, out⟩ => .go ⟨.afterPrint value, out ++ [oddText value]⟩
  | ⟨.sending next, out⟩ => .use .toEven (.send next ⟨.receiving, out⟩ ⟨.threw, out⟩)
  | ⟨.receiving, out⟩ =>
      .use .toOdd (.receive (fun next => ⟨.looping next, out⟩) ⟨.returned, out ++ [oddDone]⟩)
  | ⟨.returned, _⟩ | ⟨.threw, _⟩ | ⟨.undefined, _⟩ => .stop

def evenPrinter (limit : ℤ) : Coroutine EvenPc → Action (fun _ : Baton => ℤ) (Coroutine EvenPc)
  | ⟨.receiving, out⟩ =>
      .use .toEven (.receive (fun value => ⟨.afterPrint limit value, out ++ [evenText value]⟩)
        ⟨.threw, out⟩)
  | ⟨.sending next, out⟩ => .use .toOdd (.send next ⟨.receiving, out⟩ ⟨.threw, out⟩)
  | ⟨.closing, out⟩ => .use .toOdd (.close ⟨.returned, out ++ [evenDone]⟩)
  | ⟨.returned, _⟩ | ⟨.threw, _⟩ | ⟨.undefined, _⟩ => .stop

abbrev Printer.Locals : Printer → Type
  | .odd => Coroutine OddPc
  | .even => Coroutine EvenPc

def alternateProgram (limit : ℤ) :
    (p : Printer) → p.Locals → Action (fun _ : Baton => ℤ) p.Locals
  | .odd => oddPrinter
  | .even => evenPrinter limit

abbrev AlternateState := NetState (fun _ : Baton => ℤ) Printer.Locals

def alternateState (odd : Coroutine OddPc) (even : Coroutine EvenPc)
    (toEven toOdd : Channel ℤ) : AlternateState where
  channel
    | .toEven => toEven
    | .toOdd => toOdd
  process
    | .odd => odd
    | .even => even

def alternateStart (toEvenCapacity toOddCapacity : ℕ) : AlternateState :=
  alternateState ⟨.looping 1, []⟩ ⟨.receiving, []⟩ (.make toEvenCapacity) (.make toOddCapacity)

/-- `alternate_demo`, with channels of these capacities. -/
def alternateDemo (limit : ℤ) (toEvenCapacity toOddCapacity : ℕ) :
    System AlternateState (Label Printer) :=
  network (alternateProgram limit) (alternateStart toEvenCapacity toOddCapacity)

/-! ## Dialogue -/

inductive Party where
  | calculator
  | user
deriving DecidableEq, Repr

inductive Line where
  | requests
  | responses
deriving DecidableEq, Repr

inductive CalculatorPc where
  | receiving (total : ℤ)
  | sending (total : ℤ)
  | returned
  | threw
  | undefined
deriving DecidableEq, Repr

inductive UserPc where
  /-- At the head of the loop with the deltas that are left. -/
  | looping (deltas : List ℤ)
  | receiving (delta : ℤ) (deltas : List ℤ)
  | returned
  | threw
deriving DecidableEq, Repr

def closedText (total : ℤ) : Text :=
  "  [calc] session closed, final total ".toList ++ showInt total ++ ['\n']

def addText (delta total : ℤ) : Text :=
  "  [user] add ".toList ++ showInt delta ++ " -> total ".toList ++ showInt total ++ ['\n']

/-- `total += delta`. -/
def CalculatorPc.add (total delta : ℤ) : CalculatorPc :=
  match int (total + delta) with
  | some total => .sending total
  | none => .undefined

def calculator : Coroutine CalculatorPc → Action (fun _ : Line => ℤ) (Coroutine CalculatorPc)
  | ⟨.receiving total, out⟩ =>
      .use .requests (.receive (fun delta => ⟨.add total delta, out⟩)
        ⟨.returned, out ++ [closedText total]⟩)
  | ⟨.sending total, out⟩ => .use .responses (.send total ⟨.receiving total, out⟩ ⟨.threw, out⟩)
  | ⟨.returned, _⟩ | ⟨.threw, _⟩ | ⟨.undefined, _⟩ => .stop

def calcUser : Coroutine UserPc → Action (fun _ : Line => ℤ) (Coroutine UserPc)
  | ⟨.looping [], out⟩ => .use .requests (.close ⟨.returned, out⟩)
  | ⟨.looping (delta :: deltas), out⟩ =>
      .use .requests (.send delta ⟨.receiving delta deltas, out⟩ ⟨.threw, out⟩)
  | ⟨.receiving delta deltas, out⟩ =>
      .use .responses (.receive (fun total => ⟨.looping deltas, out ++ [addText delta total]⟩)
        ⟨.threw, out⟩)
  | ⟨.returned, _⟩ | ⟨.threw, _⟩ => .stop

abbrev Party.Locals : Party → Type
  | .calculator => Coroutine CalculatorPc
  | .user => Coroutine UserPc

def duplexProgram : (p : Party) → p.Locals → Action (fun _ : Line => ℤ) p.Locals
  | .calculator => calculator
  | .user => calcUser

abbrev DuplexState := NetState (fun _ : Line => ℤ) Party.Locals

def duplexState (calculator : Coroutine CalculatorPc) (user : Coroutine UserPc)
    (requests responses : Channel ℤ) : DuplexState where
  channel
    | .requests => requests
    | .responses => responses
  process
    | .calculator => calculator
    | .user => user

def duplexStart (deltas : List ℤ) (requestsCapacity responsesCapacity : ℕ) : DuplexState :=
  duplexState ⟨.receiving 0, []⟩ ⟨.looping deltas, []⟩ (.make requestsCapacity)
    (.make responsesCapacity)

/-- `duplex_demo`, for a user with these deltas. -/
def duplexDemo (deltas : List ℤ) (requestsCapacity responsesCapacity : ℕ) :
    System DuplexState (Label Party) :=
  network duplexProgram (duplexStart deltas requestsCapacity responsesCapacity)

/-! ## Credit -/

inductive Peer where
  | producer
  | consumer
deriving DecidableEq, Repr

inductive Flow where
  | demand
  | data
deriving DecidableEq, Repr

inductive ProducerPc where
  | receiving (nextValue : ℤ)
  /-- At the head of the inner loop, `left` values before its end. -/
  | producing (left : ℕ) (nextValue : ℤ)
  | sending (left : ℕ) (value nextValue : ℤ)
  | returned
  | threw
  | undefined
deriving DecidableEq, Repr

inductive ConsumerPc where
  /-- At the head of the outer loop, `left` batches before its end. -/
  | looping (left : ℕ)
  | requesting (left : ℕ)
  /-- At the head of the inner loop, `missing` values before its end. -/
  | receiving (left missing : ℕ)
  | returned
  | threw
deriving DecidableEq, Repr

def creditText (credit : ℤ) : Text :=
  "  [producer] got credit ".toList ++ showInt credit ++ ", producing\n".toList

def producedText (count : ℤ) : Text :=
  "  [producer] demand closed, produced ".toList ++ showInt count ++ " items in total\n".toList

def requestText (batchSize : ℕ) : Text :=
  "  [consumer] request(".toList ++ showInt batchSize ++ ")\n".toList

def gotText (value : ℤ) : Text := "  [consumer] got ".toList ++ showInt value ++ ['\n']

/-- `next_value++`, before the send of the old value. -/
def ProducerPc.produce (left : ℕ) (value : ℤ) : ProducerPc :=
  match int (value + 1) with
  | some nextValue => .sending left value nextValue
  | none => .undefined

def creditProducer : Coroutine ProducerPc → Action (fun _ : Flow => ℤ) (Coroutine ProducerPc)
  | ⟨.receiving nextValue, out⟩ =>
      .use .demand (.receive
        (fun credit => ⟨.producing credit.toNat nextValue, out ++ [creditText credit]⟩)
        ⟨.returned, out ++ [producedText (nextValue - 1)]⟩)
  | ⟨.producing 0 nextValue, out⟩ => .go ⟨.receiving nextValue, out⟩
  | ⟨.producing (left + 1) nextValue, out⟩ => .go ⟨.produce left nextValue, out⟩
  | ⟨.sending left value nextValue, out⟩ =>
      .use .data (.send value ⟨.producing left nextValue, out⟩ ⟨.threw, out⟩)
  | ⟨.returned, _⟩ | ⟨.threw, _⟩ | ⟨.undefined, _⟩ => .stop

def creditConsumer (batchSize : ℕ) :
    Coroutine ConsumerPc → Action (fun _ : Flow => ℤ) (Coroutine ConsumerPc)
  | ⟨.looping 0, out⟩ => .use .demand (.close ⟨.returned, out⟩)
  | ⟨.looping (left + 1), out⟩ => .go ⟨.requesting left, out ++ [requestText batchSize]⟩
  | ⟨.requesting left, out⟩ =>
      .use .demand (.send batchSize ⟨.receiving left batchSize, out⟩ ⟨.threw, out⟩)
  | ⟨.receiving left 0, out⟩ => .go ⟨.looping left, out⟩
  | ⟨.receiving left (missing + 1), out⟩ =>
      .use .data (.receive (fun value => ⟨.receiving left missing, out ++ [gotText value]⟩)
        ⟨.threw, out⟩)
  | ⟨.returned, _⟩ | ⟨.threw, _⟩ => .stop

abbrev Peer.Locals : Peer → Type
  | .producer => Coroutine ProducerPc
  | .consumer => Coroutine ConsumerPc

def creditProgram (batchSize : ℕ) : (p : Peer) → p.Locals → Action (fun _ : Flow => ℤ) p.Locals
  | .producer => creditProducer
  | .consumer => creditConsumer batchSize

abbrev CreditState := NetState (fun _ : Flow => ℤ) Peer.Locals

def creditState (producer : Coroutine ProducerPc) (consumer : Coroutine ConsumerPc)
    (demand data : Channel ℤ) : CreditState where
  channel
    | .demand => demand
    | .data => data
  process
    | .producer => producer
    | .consumer => consumer

def creditStart (batchCount demandCapacity dataCapacity : ℕ) : CreditState :=
  creditState ⟨.receiving 1, []⟩ ⟨.looping batchCount, []⟩ (.make demandCapacity)
    (.make dataCapacity)

/-- `credit_demo`, for these numbers of batches and of values in a batch. -/
def creditDemo (batchCount batchSize demandCapacity dataCapacity : ℕ) :
    System CreditState (Label Peer) :=
  network (creditProgram batchSize) (creditStart batchCount demandCapacity dataCapacity)

end CppWorkspace.Csp.CspDuo
