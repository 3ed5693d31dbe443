import Mathlib.Data.List.Basic
import Mathlib.Tactic.Cases
import Mathlib.Tactic.Common

/-!
# ParserGraph — parsers that take their input in chunks

A parser is a graph of nodes.  A node looks at the next byte, matches a fixed word, skips a counted
number of bytes, runs code on the store of the parser, or opens or closes a span; the text of a span
is reported to a callback.  When a chunk ends, the parser keeps the node at which it stopped, and
reports what it has of the open span; the next chunk goes on from there.
-/

namespace V8JsiRuntime
namespace Lib
namespace ParserGraph

variable {Label Store Span Signal : Type}

/-! ## Nodes -/

/-- Where a byte leads, with the byte left or taken. -/
inductive Move (Label : Type)
  | goto (target : Label)
  | advance (target : Label)

def Move.target : Move Label → Label
  | .goto target => target
  | .advance target => target

/-- The position behind the move. -/
def Move.position (p : Nat) : Move Label → Nat
  | .goto _ => p
  | .advance _ => p + 1

/-- A number in the store that counts bytes down. -/
structure Counter (Store : Type) where
  get : Store → Nat
  set : Nat → Store → Store
  get_set : ∀ n s, n ≤ get s → get (set n s) = n
  set_set : ∀ m n s, set m (set n s) = set m s

inductive Node (Label Store Span Signal : Type)
  /-- A case on the next byte. -/
  | switch (cases : List ((UInt8 → Bool) × Move Label)) (otherwise : Move Label)
  /-- The word `blob`, byte by byte, each byte seen through `fold`. -/
  | sequence (fold : UInt8 → UInt8) (blob : List UInt8) (complete mismatch : Label)
  /-- As many bytes as the counter says. -/
  | consume (counter : Counter Store) (target : Label)
  /-- Code on the store, and a case on what it returns. -/
  | invoke (code : Store → Store × Nat) (cases : List (Nat × Label)) (otherwise : Label)
  /-- A callback without a text. -/
  | signal (make : Store → Signal) (target : Label)
  | spanStart (span : Span) (target : Label)
  | spanEnd (span : Span) (takes : Bool) (target : Label)
  | error (code : Nat)
  | pause (code : Nat) (resume : Label)

/-- What the parser reports. -/
inductive Event (Span Signal : Type)
  | fragment (span : Span) (text : List UInt8)
  | signal (signal : Signal)

/-! ## Matching a word -/

inductive MatchResult
  /-- `current` is the last byte of the word. -/
  | complete (current : Nat)
  | pause (index : Nat)
  | mismatch (current : Nat)
  deriving DecidableEq

/-- The loop from position `p` with the rest of the chunk; `none` is a read behind the word. -/
def matchSequence (fold : UInt8 → UInt8) (blob : List UInt8) :
    Nat → Nat → List UInt8 → Option MatchResult
  | index, _, [] => some (.pause index)
  | index, p, byte :: rest =>
      match blob[index]? with
      | none => none
      | some expected =>
          if fold byte = expected then
            if index + 1 = blob.length then
              some (.complete p)
            else
              matchSequence fold blob (index + 1) (p + 1) rest
          else
            some (.mismatch p)

/-! ## Steps inside a chunk -/

/-- The parser at work: `p` is a position in the chunk, and an open span has its start. -/
structure Config (Label Store Span : Type) where
  label : Label
  index : Nat
  span : Option (Span × Nat)
  store : Store
  p : Nat

inductive Outcome (Label Store Span Signal : Type)
  | next (c : Config Label Store Span) (events : List (Event Span Signal))
  /-- The chunk is used up. -/
  | suspend (c : Config Label Store Span)
  | halt (c : Config Label Store Span) (code : Nat) (resume : Option Label)

/-- The bytes from `start` to `p`. -/
def slice (data : List UInt8) (start p : Nat) : List UInt8 :=
  (data.take p).drop start

/-- The first case that the byte meets. -/
def choose (cases : List ((UInt8 → Bool) × Move Label)) (otherwise : Move Label) (byte : UInt8) :
    Move Label :=
  ((cases.find? fun case => case.1 byte).map Prod.snd).getD otherwise

def chooseCode (cases : List (Nat × Label)) (otherwise : Label) (code : Nat) : Label :=
  ((cases.find? fun case => case.1 == code).map Prod.snd).getD otherwise

/-- One step at the node; `none` is a read behind a word or behind the chunk, or the end of a span
that is not open. -/
def Node.step (data : List UInt8) (c : Config Label Store Span) :
    Node Label Store Span Signal → Option (Outcome Label Store Span Signal)
  | .switch cases otherwise =>
      match data[c.p]? with
      | none => some (.suspend c)
      | some byte =>
          let move := choose cases otherwise byte
          some (.next { c with label := move.target, p := move.position c.p } [])
  | .sequence fold blob complete mismatch =>
      match matchSequence fold blob c.index c.p (data.drop c.p) with
      | none => none
      | some (.complete current) =>
          some (.next { c with label := complete, index := 0, p := current + 1 } [])
      | some (.pause index) => some (.suspend { c with index := index, p := data.length })
      | some (.mismatch current) =>
          some (.next { c with label := mismatch, index := 0, p := current } [])
  | .consume counter target =>
      let available := data.length - c.p
      let need := counter.get c.store
      if available ≥ need then
        some (.next { c with label := target, store := counter.set 0 c.store, p := c.p + need } [])
      else
        some (.suspend
          { c with store := counter.set (need - available) c.store, p := data.length })
  | .invoke code cases otherwise =>
      some (.next { c with
        label := chooseCode cases otherwise (code c.store).2
        store := (code c.store).1 } [])
  | .signal make target => some (.next { c with label := target } [.signal (make c.store)])
  | .spanStart span target =>
      if c.p = data.length then
        some (.suspend c)
      else
        some (.next { c with label := target, span := some (span, c.p) } [])
  | .spanEnd span takes target =>
      match c.span with
      | none => none
      | some (_, start) =>
          if takes = true ∧ c.p = data.length then
            none
          else
            some (.next { c with
              label := target
              span := none
              p := if takes then c.p + 1 else c.p } [.fragment span (slice data start c.p)])
  | .error code => some (.halt c code none)
  | .pause code resume => some (.halt c code (some resume))

/-- What is known of the open span, up to the position. -/
def Config.pending (data : List UInt8) (c : Config Label Store Span) : List (Event Span Signal) :=
  match c.span with
  | none => []
  | some (span, start) => [.fragment span (slice data start c.p)]

/-! ## What a graph relies on -/

section Checks

variable [DecidableEq Span]

/-- The nodes that may follow, with the span that is open there, and whether a byte is sure to be
left. -/
def Node.follows (span : Option Span) (atByte : Bool) :
    Node Label Store Span Signal → List (Label × Option Span × Bool)
  | .switch cases otherwise =>
      (otherwise :: cases.map Prod.snd).map fun move =>
        match move with
        | .goto target => (target, span, true)
        | .advance target => (target, span, false)
  | .sequence _ _ complete mismatch => [(complete, span, false), (mismatch, span, true)]
  | .consume _ target => [(target, span, false)]
  | .invoke _ cases otherwise =>
      (otherwise :: cases.map Prod.snd).map fun target => (target, span, atByte)
  | .signal _ target => [(target, span, atByte)]
  | .spanStart opened target => [(target, some opened, true)]
  | .spanEnd _ _ target => [(target, none, false)]
  | .error _ => []
  | .pause _ resume => [(resume, span, false)]

/-- What a node needs on arrival: words are not empty, spans are not nested and end as they were
opened, nothing else is reported inside of a span and no pause made there, and a byte that is taken
without a look is there. -/
def Node.accepts (pauseCode : Nat) (span : Option Span) (atByte : Bool) :
    Node Label Store Span Signal → Bool
  | .switch _ _ => true
  | .sequence _ blob _ _ => !blob.isEmpty && !atByte
  | .consume _ _ => !atByte
  | .invoke _ _ _ => true
  | .signal _ _ => span == none
  | .spanStart _ _ => span == none
  | .spanEnd closed takes _ => span == some closed && (!takes || atByte)
  | .error code => code != 0 && code != pauseCode
  | .pause code _ => code == pauseCode && span == none

/-- The nodes that may follow without a byte being taken. -/
def Node.silent : Node Label Store Span Signal → List Label
  | .switch cases otherwise =>
      (otherwise :: cases.map Prod.snd).filterMap fun move =>
        match move with
        | .goto target => some target
        | .advance _ => none
  | .sequence _ _ _ mismatch => [mismatch]
  | .consume _ target => [target]
  | .invoke _ cases otherwise => otherwise :: cases.map Prod.snd
  | .signal _ target => [target]
  | .spanStart _ target => [target]
  | .spanEnd _ takes target => if takes then [] else [target]
  | .error _ => []
  | .pause _ _ => []

/-- From here at most `n` steps are made before a byte is taken. -/
def silentWithin (node : Label → Node Label Store Span Signal) : Nat → Label → Bool
  | 0, label => (node label).silent.isEmpty
  | n + 1, label => (node label).silent.all (silentWithin node n)

end Checks

end ParserGraph

open ParserGraph

/-- A graph whose spans are in order and which makes no endless loop without taking a byte. -/
structure ParserGraph (Label Store Span Signal : Type) [DecidableEq Span] where
  node : Label → Node Label Store Span Signal
  start : Label
  /-- The span that is open on arrival. -/
  spanOf : Label → Option Span
  /-- A byte is sure to be left on arrival. -/
  atByte : Label → Bool
  pauseCode : Nat
  bound : Nat
  pauseCode_ne_zero : pauseCode ≠ 0
  spanOf_start : spanOf start = none
  atByte_start : atByte start = false
  accepts : ∀ label, (node label).accepts pauseCode (spanOf label) (atByte label) = true
  follows : ∀ label, ((node label).follows (spanOf label) (atByte label)).all
    (fun next => spanOf next.1 == next.2.1 && (!atByte next.1 || next.2.2)) = true
  settles : ∀ label, silentWithin node bound label = true

namespace ParserGraph

variable [DecidableEq Span]

/-! ## Chunks -/

/-- What the parser keeps between two chunks; `current` is `none` behind an error. -/
structure State (Label Store Span : Type) where
  current : Option Label
  index : Nat
  span : Option Span
  store : Store
  error : Nat

/-- What a chunk brings about; `undelivered` is the text of the span that was open when the parser
failed. -/
structure Report (Label Store Span Signal : Type) where
  state : State Label Store Span
  events : List (Event Span Signal)
  undelivered : List (Event Span Signal)

/-- How the work on a chunk ends. -/
inductive Stop (Label Store Span : Type)
  | suspended (c : Config Label Store Span)
  | halted (c : Config Label Store Span) (code : Nat) (resume : Option Label)

/-- The steps from `c` on; `none` is a step that reads out of bounds, or no end within the fuel. -/
def run (g : ParserGraph Label Store Span Signal) (data : List UInt8) :
    Nat → Config Label Store Span → Option (List (Event Span Signal) × Stop Label Store Span)
  | 0, _ => none
  | fuel + 1, c =>
      match (g.node c.label).step data c with
      | none => none
      | some (.next c' events) => (g.run data fuel c').map fun r => (events ++ r.1, r.2)
      | some (.suspend c') => some ([], .suspended c')
      | some (.halt c' code resume) => some ([], .halted c' code resume)

/-- Enough for a chunk of this length. -/
def fuel (g : ParserGraph Label Store Span Signal) (length : Nat) : Nat :=
  (g.bound + 1) * (length + 1)

/-- The parser as it starts on a chunk: an open span starts anew. -/
def State.config (s : State Label Store Span) (label : Label) : Config Label Store Span where
  label := label
  index := s.index
  span := s.span.map fun span => (span, 0)
  store := s.store
  p := 0

/-- The parser behind the chunk: what there is of an open span is reported. -/
def Stop.report (data : List UInt8) (events : List (Event Span Signal)) :
    Stop Label Store Span → Report Label Store Span Signal
  | .suspended c =>
      ⟨⟨some c.label, c.index, c.span.map Prod.fst, c.store, 0⟩, events ++ c.pending data, []⟩
  | .halted c code resume =>
      ⟨⟨resume, c.index, c.span.map Prod.fst, c.store, code⟩, events, c.pending data⟩

/-- The parser on a chunk; `none` is undefined behaviour. -/
def execute (g : ParserGraph Label Store Span Signal) (s : State Label Store Span)
    (data : List UInt8) : Option (Report Label Store Span Signal) :=
  if s.error ≠ 0 then
    some ⟨s, [], []⟩
  else
    match s.current with
    | none => none
    | some label =>
        (g.run data (g.fuel data.length) (s.config label)).map fun r => r.2.report data r.1

/-! ## Well-formed states -/

/-- A word is never passed. -/
def Node.IndexOk (index : Nat) : Node Label Store Span Signal → Prop
  | .sequence _ blob _ _ => index < blob.length
  | _ => index = 0

variable (g : ParserGraph Label Store Span Signal)

structure State.WellFormed (s : State Label Store Span) : Prop where
  isSome : s.error = 0 ∨ s.error = g.pauseCode → s.current.isSome
  span : ∀ label, s.current = some label → s.span = g.spanOf label
  atByte : ∀ label, s.current = some label → g.atByte label = false
  index : ∀ label, s.current = some label → (g.node label).IndexOk s.index

structure Config.WellFormed (data : List UInt8) (c : Config Label Store Span) : Prop where
  p_le : c.p ≤ data.length
  span : c.span.map Prod.fst = g.spanOf c.label
  start_le : ∀ opened ∈ c.span, opened.2 ≤ c.p
  atByte : g.atByte c.label = true → c.p < data.length
  index : (g.node c.label).IndexOk c.index

/-- What a step may lead to. -/
def Outcome.Sound (data : List UInt8) (c : Config Label Store Span) :
    Outcome Label Store Span Signal → Prop
  | .next c' _ => c'.WellFormed g data ∧
      (c.p < c'.p ∨ c'.p = c.p ∧ c'.label ∈ (g.node c.label).silent)
  | .suspend c' => c'.WellFormed g data ∧ g.atByte c'.label = false ∧ c'.p = data.length
  | .halt c' code resume => c' = c ∧ code ≠ 0 ∧
      (code = g.pauseCode → resume.isSome ∧ c.span = none) ∧
        ∀ label, resume = some label → g.spanOf label = g.spanOf c.label ∧
          g.atByte label = false ∧ c.index = 0

variable {g}

theorem indexOk_zero (label : Label) : (g.node label).IndexOk 0 := by
  have haccepts := g.accepts label
  cases hnode : g.node label with
  | sequence fold blob complete mismatch =>
      rw [hnode] at haccepts
      cases blob with
      | nil => simp [Node.accepts] at haccepts
      | cons byte blob => exact Nat.succ_pos _
  | _ => rfl

theorem spanOf_of_follows {label target : Label} {span : Option Span} {hasByte : Bool}
    (h : (target, span, hasByte) ∈ (g.node label).follows (g.spanOf label) (g.atByte label)) :
    g.spanOf target = span ∧ (g.atByte target = true → hasByte = true) := by
  have hfollows := List.all_eq_true.1 (g.follows label) _ h
  simp only [Bool.and_eq_true, beq_iff_eq, Bool.or_eq_true, Bool.not_eq_true'] at hfollows
  refine ⟨hfollows.1, fun hbyte => ?_⟩
  rcases hfollows.2 with hno | hhas
  · rw [hno] at hbyte
    cases hbyte
  · exact hhas

/-! ### Words -/

/-- Where a match may end. -/
theorem matchSequence_cases (fold : UInt8 → UInt8) {blob : List UInt8} (rest : List UInt8)
    {index : Nat} (p : Nat) (hindex : index < blob.length) :
    (∃ current, matchSequence fold blob index p rest = some (.complete current) ∧
        p ≤ current ∧ current < p + rest.length) ∨
      (∃ index', matchSequence fold blob index p rest = some (.pause index') ∧
        index' < blob.length) ∨
      ∃ current, matchSequence fold blob index p rest = some (.mismatch current) ∧
        p ≤ current ∧ current < p + rest.length := by
  induction rest generalizing index p with
  | nil => exact Or.inr (Or.inl ⟨index, rfl, hindex⟩)
  | cons byte rest ih =>
      rw [matchSequence, List.getElem?_eq_getElem hindex]
      dsimp only
      rw [List.length_cons]
      split
      · split
        · exact Or.inl ⟨p, rfl, Nat.le_refl p, by omega⟩
        · have hnext : index + 1 < blob.length := by omega
          rcases ih (p + 1) hnext with
            ⟨current, heq, hle, hlt⟩ | hpause | ⟨current, heq, hle, hlt⟩
          · exact Or.inl ⟨current, heq, by omega, by omega⟩
          · exact Or.inr (Or.inl hpause)
          · exact Or.inr (Or.inr ⟨current, heq, by omega, by omega⟩)
      · exact Or.inr (Or.inr ⟨p, rfl, Nat.le_refl p, by omega⟩)

/-! ### Steps -/

section Step

variable {data : List UInt8} {c : Config Label Store Span}

/-- Arriving at a node that follows, with the span known there. -/
theorem wellFormed_of_follows (label : Label) {target : Label} {span : Option (Span × Nat)} 
    {store : Store} {p : Nat} (hasByte : Bool) (hfollows : (target, span.map Prod.fst, hasByte) ∈
      (g.node label).follows (g.spanOf label) (g.atByte label))
    (hp : p ≤ data.length) (hstart : ∀ opened ∈ span, opened.2 ≤ p)
    (hbyte : hasByte = true → p < data.length) :
    Config.WellFormed g data ⟨target, 0, span, store, p⟩ := by
  obtain ⟨hspan, hat⟩ := spanOf_of_follows hfollows
  exact ⟨hp, hspan.symm, hstart, fun h => hbyte (hat h), indexOk_zero target⟩

/-- The cases that a byte chooses from. -/
theorem choose_mem (cases : List ((UInt8 → Bool) × Move Label)) (otherwise : Move Label)
    (byte : UInt8) : choose cases otherwise byte ∈ otherwise :: cases.map Prod.snd := by
  rw [choose]
  cases hfind : cases.find? fun case => case.1 byte with
  | none => exact List.mem_cons_self
  | some case =>
      exact List.mem_cons_of_mem _ (List.mem_map_of_mem (List.mem_of_find?_eq_some hfind))

theorem chooseCode_mem (cases : List (Nat × Label)) (otherwise : Label) (code : Nat) :
    chooseCode cases otherwise code ∈ otherwise :: cases.map Prod.snd := by
  rw [chooseCode]
  cases hfind : cases.find? fun case => case.1 == code with
  | none => exact List.mem_cons_self
  | some case =>
      exact List.mem_cons_of_mem _ (List.mem_map_of_mem (List.mem_of_find?_eq_some hfind))

theorem Config.WellFormed.switch (h : c.WellFormed g data)
    {cases : List ((UInt8 → Bool) × Move Label)} {otherwise : Move Label}
    (hnode : g.node c.label = .switch cases otherwise) :
    ∃ o, (g.node c.label).step data c = some o ∧ o.Sound g data c := by
  have hindex : c.index = 0 := by
    have hok := h.index
    rwa [hnode] at hok
  rw [hnode, Node.step]
  cases hbyte : data[c.p]? with
  | none =>
      have hp : c.p = data.length := Nat.le_antisymm h.p_le (List.getElem?_eq_none_iff.1 hbyte)
      refine ⟨_, rfl, h, ?_, hp⟩
      exact Bool.eq_false_iff.2 fun hat => absurd (h.atByte hat) (by omega)
  | some byte =>
      have hlt : c.p < data.length := (List.getElem?_eq_some_iff.1 hbyte).1
      have hmem := choose_mem cases otherwise byte
      refine ⟨_, rfl, ?_⟩
      dsimp only [Outcome.Sound]
      rw [hindex]
      cases hmove : choose cases otherwise byte with
      | goto target =>
          rw [hmove] at hmem
          refine ⟨wellFormed_of_follows c.label true ?_ h.p_le h.start_le fun _ => hlt, Or.inr ⟨rfl, ?_⟩⟩
          · rw [hnode, h.span]
            exact List.mem_map.2 ⟨_, hmem, rfl⟩
          · rw [hnode]
            exact List.mem_filterMap.2 ⟨_, hmem, rfl⟩
      | advance target =>
          rw [hmove] at hmem
          refine ⟨wellFormed_of_follows c.label false ?_ hlt ?_ nofun, Or.inl (Nat.lt_succ_self c.p)⟩
          · rw [hnode, h.span]
            exact List.mem_map.2 ⟨_, hmem, rfl⟩
          · exact fun opened hopened => Nat.le_succ_of_le (h.start_le opened hopened)

theorem Config.WellFormed.sequence (h : c.WellFormed g data) {fold : UInt8 → UInt8}
    {blob : List UInt8} {complete mismatch : Label}
    (hnode : g.node c.label = .sequence fold blob complete mismatch) :
    ∃ o, (g.node c.label).step data c = some o ∧ o.Sound g data c := by
  have hindex := h.index
  have hat : g.atByte c.label = false := by
    have haccepts := g.accepts c.label
    rw [hnode] at haccepts
    simpa using (Bool.and_eq_true_iff.1 haccepts).2
  have hlength : c.p + (data.drop c.p).length = data.length := by
    rw [List.length_drop]
    exact Nat.add_sub_of_le h.p_le
  rw [hnode] at hindex ⊢
  rw [Node.step]
  rcases matchSequence_cases fold (data.drop c.p) c.p hindex with
    ⟨current, hmatch, hle, hlt⟩ | ⟨index, hmatch, hlt⟩ | ⟨current, hmatch, hle, hlt⟩
  · rw [hmatch]
    refine ⟨_, rfl, wellFormed_of_follows c.label false ?_ ?_ ?_ nofun, Or.inl (Nat.lt_succ_of_le hle)⟩
    · rw [hnode, h.span]
      exact List.mem_cons_self
    · omega
    · exact fun opened hopened => Nat.le_succ_of_le (Nat.le_trans (h.start_le opened hopened) hle)
  · rw [hmatch]
    refine ⟨_, rfl, ⟨Nat.le_refl _, h.span, ?_, ?_, ?_⟩, hat, rfl⟩
    · exact fun opened hopened => Nat.le_trans (h.start_le opened hopened) h.p_le
    · intro hbyte
      rw [hat] at hbyte
      cases hbyte
    · rw [hnode]
      exact hlt
  · rw [hmatch]
    refine ⟨_, rfl, wellFormed_of_follows c.label true ?_ ?_ ?_ ?_, ?_⟩
    · rw [hnode, h.span]
      exact List.mem_cons_of_mem _ List.mem_cons_self
    · omega
    · exact fun opened hopened => Nat.le_trans (h.start_le opened hopened) hle
    · exact fun _ => by omega
    · rcases Nat.eq_or_lt_of_le hle with heq | hlt
      · exact Or.inr ⟨heq.symm, hnode ▸ List.mem_cons_self⟩
      · exact Or.inl hlt

theorem Config.WellFormed.consume (h : c.WellFormed g data) {counter : Counter Store}
    {target : Label} (hnode : g.node c.label = .consume counter target) :
    ∃ o, (g.node c.label).step data c = some o ∧ o.Sound g data c := by
  have hindex : c.index = 0 := by
    have hok := h.index
    rwa [hnode] at hok
  have hat : g.atByte c.label = false := by
    have haccepts := g.accepts c.label
    rw [hnode] at haccepts
    simpa [Node.accepts] using haccepts
  have hp := h.p_le
  rw [hnode, Node.step]
  split
  · refine ⟨_, rfl, ?_, ?_⟩
    · rw [hindex]
      refine wellFormed_of_follows c.label false ?_ (by omega) ?_ nofun
      · rw [hnode, h.span]
        exact List.mem_cons_self
      · exact fun opened hopened => Nat.le_trans (h.start_le opened hopened) (Nat.le_add_right _ _)
    · rcases Nat.eq_zero_or_pos (counter.get c.store) with hzero | hpos
      · exact Or.inr ⟨by rw [hzero]; rfl, hnode ▸ List.mem_cons_self⟩
      · exact Or.inl (Nat.lt_add_of_pos_right hpos)
  · refine ⟨_, rfl, ⟨Nat.le_refl _, h.span, ?_, ?_, h.index⟩, hat, rfl⟩
    · exact fun opened hopened => Nat.le_trans (h.start_le opened hopened) hp
    · intro hbyte
      rw [hat] at hbyte
      cases hbyte

/-- Nodes that neither look at a byte nor open or close a span. -/
theorem Config.WellFormed.silent (h : c.WellFormed g data) {target : Label} (store : Store)
    (events : List (Event Span Signal)) (hindex : c.index = 0)
    (hfollows : (target, g.spanOf c.label, g.atByte c.label) ∈
      (g.node c.label).follows (g.spanOf c.label) (g.atByte c.label))
    (hsilent : target ∈ (g.node c.label).silent) :
    Outcome.Sound g data c (.next { c with label := target, store := store } events) := by
  refine ⟨?_, Or.inr ⟨rfl, hsilent⟩⟩
  rw [hindex]
  refine wellFormed_of_follows c.label (g.atByte c.label) ?_ h.p_le h.start_le h.atByte
  rwa [h.span]

theorem Config.WellFormed.spanStart (h : c.WellFormed g data) {span : Span} {target : Label}
    (hnode : g.node c.label = .spanStart span target) :
    ∃ o, (g.node c.label).step data c = some o ∧ o.Sound g data c := by
  have hindex : c.index = 0 := by
    have hok := h.index
    rwa [hnode] at hok
  rw [hnode, Node.step]
  split
  · rename_i hp
    exact ⟨_, rfl, h, Bool.eq_false_iff.2 fun hat => absurd (h.atByte hat) (by omega), hp⟩
  · rename_i hp
    refine ⟨_, rfl, ?_, Or.inr ⟨rfl, hnode ▸ List.mem_cons_self⟩⟩
    rw [hindex]
    refine wellFormed_of_follows c.label true ?_ h.p_le ?_ fun _ => Nat.lt_of_le_of_ne h.p_le hp
    · rw [hnode]
      exact List.mem_cons_self
    · rintro _ ⟨⟩
      exact Nat.le_refl _

theorem Config.WellFormed.spanEnd (h : c.WellFormed g data) {span : Span} {takes : Bool}
    {target : Label} (hnode : g.node c.label = .spanEnd span takes target) :
    ∃ o, (g.node c.label).step data c = some o ∧ o.Sound g data c := by
  have hindex : c.index = 0 := by
    have hok := h.index
    rwa [hnode] at hok
  have haccepts := g.accepts c.label
  have hspan := h.span
  rw [hnode, Node.accepts, Bool.and_eq_true, beq_iff_eq] at haccepts
  rw [haccepts.1] at hspan
  obtain ⟨⟨opened, start⟩, hopened, rfl⟩ := Option.map_eq_some_iff.1 hspan
  rw [hnode, Node.step, hopened]
  dsimp only
  cases takes with
  | true =>
      have hlt : c.p < data.length := h.atByte (by simpa using haccepts.2)
      rw [if_neg (by omega)]
      refine ⟨_, rfl, ?_, Or.inl (Nat.lt_succ_self c.p)⟩
      rw [hindex]
      refine wellFormed_of_follows c.label false ?_ hlt nofun nofun
      rw [hnode]
      exact List.mem_cons_self
  | false =>
      rw [if_neg nofun]
      refine ⟨_, rfl, ?_, Or.inr ⟨rfl, ?_⟩⟩
      · rw [hindex]
        refine wellFormed_of_follows c.label false ?_ h.p_le nofun nofun
        rw [hnode]
        exact List.mem_cons_self
      · rw [hnode]
        exact List.mem_cons_self

/-- A step reads nothing out of bounds, and takes a byte or follows the graph. -/
theorem Config.WellFormed.step (h : c.WellFormed g data) :
    ∃ o, (g.node c.label).step data c = some o ∧ o.Sound g data c := by
  have hindex := h.index
  cases hnode : g.node c.label with
  | switch cases otherwise => exact hnode ▸ h.switch hnode
  | sequence fold blob complete mismatch => exact hnode ▸ h.sequence hnode
  | consume counter target => exact hnode ▸ h.consume hnode
  | invoke code cases otherwise =>
      rw [hnode] at hindex
      have hmem := chooseCode_mem cases otherwise (code c.store).2
      refine ⟨_, rfl, h.silent _ _ hindex ?_ (hnode ▸ hmem)⟩
      rw [hnode]
      exact List.mem_map.2 ⟨_, hmem, rfl⟩
  | signal make target =>
      rw [hnode] at hindex
      refine ⟨_, rfl, h.silent c.store _ hindex ?_ ?_⟩
      · rw [hnode]
        exact List.mem_cons_self
      · rw [hnode]
        exact List.mem_cons_self
  | spanStart span target => exact hnode ▸ h.spanStart hnode
  | spanEnd span takes target => exact hnode ▸ h.spanEnd hnode
  | error code =>
      have haccepts := g.accepts c.label
      rw [hnode, Node.accepts, Bool.and_eq_true, bne_iff_ne, bne_iff_ne] at haccepts
      exact ⟨_, rfl, rfl, haccepts.1, fun hpause => absurd hpause haccepts.2, nofun⟩
  | pause code resume =>
      have haccepts := g.accepts c.label
      rw [hnode] at hindex haccepts
      rw [Node.accepts, Bool.and_eq_true, beq_iff_eq, beq_iff_eq] at haccepts
      obtain ⟨rfl, houtside⟩ := haccepts
      have hspan : c.span = none := Option.map_eq_none_iff.1 (h.span.trans houtside)
      refine ⟨_, rfl, rfl, g.pauseCode_ne_zero, fun _ => ⟨rfl, hspan⟩, ?_⟩
      rintro _ ⟨⟩
      have hfollows := @spanOf_of_follows _ _ _ _ _ g c.label resume (g.spanOf c.label) false
        (by rw [hnode]; exact List.mem_cons_self)
      exact ⟨hfollows.1, Bool.eq_false_iff.2 fun hat => Bool.noConfusion (hfollows.2 hat), hindex⟩

end Step

/-! ### Runs -/

/-- How a run may end. -/
def Stop.Sound (g : ParserGraph Label Store Span Signal) (data : List UInt8) :
    Stop Label Store Span → Prop
  | .suspended c => c.WellFormed g data ∧ g.atByte c.label = false ∧ c.p = data.length
  | .halted c code resume => c.p ≤ data.length ∧ code ≠ 0 ∧
      (code = g.pauseCode → resume.isSome ∧ c.span = none) ∧
        ∀ label, resume = some label → g.spanOf label = c.span.map Prod.fst ∧
          g.atByte label = false ∧ c.index = 0

variable {data : List UInt8} {c : Config Label Store Span}

/-- The run ends: the induction is on the fuel, which covers the steps without a byte for each byte
that is left. -/
theorem exists_run (h : c.WellFormed g data) {n fuel : Nat} (hn : n ≤ g.bound)
    (hsettles : silentWithin g.node n c.label = true)
    (hfuel : (data.length - c.p) * (g.bound + 1) + n < fuel) :
    ∃ r, g.run data fuel c = some r ∧ r.2.Sound g data := by
  induction fuel generalizing c n with
  | zero => exact absurd hfuel (Nat.not_lt_zero _)
  | succ fuel ih =>
      obtain ⟨o, hstep, hsound⟩ := h.step
      rw [run, hstep]
      cases o with
      | suspend c' => exact ⟨_, rfl, hsound⟩
      | halt c' code resume =>
          obtain ⟨rfl, hcode, hpause, hresume⟩ := hsound
          refine ⟨_, rfl, h.p_le, hcode, hpause, fun label hlabel => ?_⟩
          rw [h.span]
          exact hresume label hlabel
      | next c' events =>
          obtain ⟨hnext, hmoves⟩ := hsound
          have hdone : ∃ m ≤ g.bound, silentWithin g.node m c'.label = true ∧
              (data.length - c'.p) * (g.bound + 1) + m < fuel := by
            rcases hmoves with hlt | ⟨hp, hsilent⟩
            · refine ⟨g.bound, Nat.le_refl _, g.settles c'.label, ?_⟩
              have hle : data.length - c'.p + 1 ≤ data.length - c.p := by
                have := hnext.p_le
                omega
              have hmul := Nat.mul_le_mul_right (g.bound + 1) hle
              rw [Nat.succ_mul] at hmul
              omega
            · cases n with
              | zero =>
                  rw [silentWithin, List.isEmpty_iff] at hsettles
                  rw [hsettles] at hsilent
                  cases hsilent
              | succ n =>
                  rw [silentWithin, List.all_eq_true] at hsettles
                  exact ⟨n, by omega, hsettles _ hsilent, by rw [hp]; omega⟩
          obtain ⟨m, hm, hwithin, hless⟩ := hdone
          obtain ⟨r, hrun, hstop⟩ := ih hnext hm hwithin hless
          exact ⟨(events ++ r.1, r.2), by simp [hrun], hstop⟩

theorem State.WellFormed.config {s : State Label Store Span} (h : s.WellFormed g) {label : Label}
    (hcurrent : s.current = some label) : (s.config label).WellFormed g data where
  p_le := Nat.zero_le _
  span := by
    have hspan := h.span label hcurrent
    cases hopen : s.span with
    | none => simpa [State.config, hopen] using hspan
    | some span => simpa [State.config, hopen] using hspan
  start_le := by
    intro opened hopened
    obtain ⟨span, _, rfl⟩ := Option.map_eq_some_iff.1 hopened
    exact Nat.zero_le _
  atByte hat := by
    have hno := h.atByte label hcurrent
    rw [State.config, hno] at hat
    cases hat
  index := h.index label hcurrent

theorem Stop.Sound.report {stop : Stop Label Store Span} (h : stop.Sound g data)
    (events : List (Event Span Signal)) : (stop.report data events).state.WellFormed g := by
  cases stop with
  | suspended c =>
      obtain ⟨hc, hat, _⟩ := h
      refine ⟨fun _ => rfl, ?_, ?_, ?_⟩
      · rintro _ ⟨⟩
        exact hc.span
      · rintro _ ⟨⟩
        exact hat
      · rintro _ ⟨⟩
        exact hc.index
  | halted c code resume =>
      obtain ⟨_, hcode, hpause, hresume⟩ := h
      refine ⟨fun herror => ?_, ?_, ?_, ?_⟩
      · exact (hpause (herror.resolve_left hcode)).1
      · exact fun label hlabel => (hresume label hlabel).1.symm
      · exact fun label hlabel => (hresume label hlabel).2.1
      · intro label hlabel
        rw [Stop.report, (hresume label hlabel).2.2]
        exact indexOk_zero label

/-- On a well-formed state a chunk ends, reads nothing out of bounds, and leaves such a state. -/
theorem exists_execute {s : State Label Store Span} (h : s.WellFormed g) (data : List UInt8) :
    ∃ r, g.execute s data = some r ∧ r.state.WellFormed g := by
  rw [execute]
  split
  · exact ⟨_, rfl, h⟩
  · rename_i hok
    have hsome := h.isSome (Or.inl (not_not.1 hok))
    obtain ⟨label, hcurrent⟩ := Option.isSome_iff_exists.1 hsome
    rw [hcurrent]
    have hfuel : (data.length - (s.config label).p) * (g.bound + 1) + g.bound <
        g.fuel data.length := by
      rw [fuel, Nat.mul_comm (g.bound + 1), Nat.succ_mul]
      exact Nat.lt_succ_self _
    obtain ⟨r, hrun, hstop⟩ := exists_run (h.config hcurrent) (Nat.le_refl _) (g.settles label) hfuel
    exact ⟨r.2.report data r.1, by simp [hrun], hstop.report r.1⟩

/-- The parser goes on behind a pause. -/
def State.resume (g : ParserGraph Label Store Span Signal) (s : State Label Store Span) :
    State Label Store Span :=
  if s.error = g.pauseCode then { s with error := 0 } else s

theorem State.WellFormed.resume {s : State Label Store Span} (h : s.WellFormed g) :
    (s.resume g).WellFormed g := by
  rw [State.resume]
  split
  · rename_i hpause
    exact ⟨fun _ => h.isSome (Or.inr hpause), h.span, h.atByte, h.index⟩
  · exact h

/-! ## Parsers -/

variable (g)

/-- A parser of the graph is a well-formed state. -/
def Parser : Type :=
  { s : State Label Store Span // s.WellFormed g }

variable {g}

namespace Parser

/-- A parser that has read nothing. -/
def init (g : ParserGraph Label Store Span Signal) (store : Store) : g.Parser where
  val := ⟨some g.start, 0, none, store, 0⟩
  property := by
    refine ⟨fun _ => rfl, ?_, ?_, ?_⟩
    · rintro _ ⟨⟩
      exact g.spanOf_start.symm
    · rintro _ ⟨⟩
      exact g.atByte_start
    · rintro _ ⟨⟩
      exact indexOk_zero g.start

def resume (parser : g.Parser) : g.Parser :=
  ⟨parser.1.resume g, parser.2.resume⟩

theorem isSome_execute (parser : g.Parser) (data : List UInt8) :
    (g.execute parser.1 data).isSome := by
  obtain ⟨r, hr, _⟩ := exists_execute parser.2 data
  rw [hr]
  rfl

/-- What a chunk brings about. -/
def report (parser : g.Parser) (data : List UInt8) : Report Label Store Span Signal :=
  (g.execute parser.1 data).get (parser.isSome_execute data)

theorem execute_eq (parser : g.Parser) (data : List UInt8) :
    g.execute parser.1 data = some (parser.report data) :=
  (Option.some_get _).symm

/-- The parser behind a chunk. -/
def execute (parser : g.Parser) (data : List UInt8) : g.Parser where
  val := (parser.report data).state
  property := by
    obtain ⟨r, hr, hr'⟩ := exists_execute parser.2 data
    rw [parser.execute_eq] at hr
    rwa [Option.some.inj hr]

end Parser

end ParserGraph

end Lib
end V8JsiRuntime
