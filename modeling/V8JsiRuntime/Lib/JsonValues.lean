import V8JsiRuntime.Lib.JsonTokens
import V8JsiRuntime.Lib.Positions
import V8JsiRuntime.Lib.Run

/-!
# JsonValues — the values of texts

A string that is a member of the value of a text stands in its tokens, next to its name.  The other
way round, the tokens of strings, arrays and objects that are put together are read as the value put
together.
-/

namespace V8JsiRuntime
namespace Lib

namespace Json

/-! ## Members and the tokens they come from -/

/-- An object in the value has a member of that name. -/
inductive HasMember : Json → List UInt8 → Json → Prop
  | here {members : List (List UInt8 × Json)} {name : List UInt8} {value : Json} :
      (name, value) ∈ members → HasMember (.object members) name value
  | element {elements : List Json} {element : Json} {name : List UInt8} {value : Json} :
      element ∈ elements → HasMember element name value → HasMember (.array elements) name value
  | member {members : List (List UInt8 × Json)} {member : List UInt8 × Json} {name : List UInt8}
      {value : Json} : member ∈ members → HasMember member.2 name value →
        HasMember (.object members) name value

/-- A name and a string stand next to each other in the tokens. -/
def Occurs (ts : List Token) (name text : List UInt8) : Prop :=
  ∃ k v, [.string k, .nameSeparator, .string v] <:+: ts ∧ unescape k = some name ∧
    unescape v = some text

theorem Occurs.concat {ts : List Token} {name text : List UInt8} (h : Occurs ts name text)
    (t : Token) : Occurs (ts ++ [t]) name text := by
  obtain ⟨k, v, hinfix, hk, hv⟩ := h
  exact ⟨k, v, hinfix.trans (List.prefix_append ts [t]).isInfix, hk, hv⟩

theorem HasMember.of_array_concat {elements : List Json} {value value' : Json} {name : List UInt8}
    (h : HasMember (.array (elements ++ [value])) name value') :
    HasMember (.array elements) name value' ∨ HasMember value name value' := by
  cases h with
  | element hmem helement =>
      rcases List.mem_append.1 hmem with hmem | hmem
      · exact Or.inl (.element hmem helement)
      · rw [List.mem_singleton.1 hmem] at helement
        exact Or.inr helement

theorem HasMember.of_object_concat {members : List (List UInt8 × Json)} {value value' : Json}
    {name name' : List UInt8} (h : HasMember (.object (members ++ [(name', value)])) name value') :
    HasMember (.object members) name value' ∨ (name = name' ∧ value' = value) ∨
      HasMember value name value' := by
  cases h with
  | here hmem =>
      rcases List.mem_append.1 hmem with hmem | hmem
      · exact Or.inl (.here hmem)
      · exact Or.inr (Or.inl (Prod.mk.inj (List.mem_singleton.1 hmem)))
  | member hmem hmember =>
      rcases List.mem_append.1 hmem with hmem | hmem
      · exact Or.inl (.member hmem hmember)
      · rw [List.mem_singleton.1 hmem] at hmember
        exact Or.inr (Or.inr hmember)

/-- The strings among the members of a value all occur in the tokens. -/
def MembersOccur (ts : List Token) (value : Json) : Prop :=
  ∀ name text, HasMember value name (.string text) → Occurs ts name text

theorem MembersOccur.concat {ts : List Token} {value : Json} (h : MembersOccur ts value)
    (t : Token) : MembersOccur (ts ++ [t]) value :=
  fun name text hmember => (h name text hmember).concat t

theorem MembersOccur.array_nil (ts : List Token) : MembersOccur ts (.array []) := by
  intro name text hmember
  cases hmember with
  | element hmem => cases hmem

theorem MembersOccur.object_nil (ts : List Token) : MembersOccur ts (.object []) := by
  intro name text hmember
  cases hmember with
  | here hmem => cases hmem
  | member hmem => cases hmem

/-- What is read of an array or object that is open. -/
def Frame.value : Frame → Json
  | .array elements => .array elements
  | .object members _ => .object members

namespace Parser

variable {p q : Parser} {t : Token} {ts : List Token} {stack : List Frame} {raw : List UInt8}

def values : Parser → List Json
  | value stack | firstElement stack | firstName stack => stack.map Frame.value
  | afterElement elements stack => .array elements :: stack.map Frame.value
  | nextName members stack | afterName members _ stack | afterMember members stack =>
      .object members :: stack.map Frame.value
  | done last => [last]

/-- What has been read comes from the tokens so far. -/
structure Sound (ts : List Token) (p : Parser) : Prop where
  members : ∀ value ∈ p.values, MembersOccur ts value
  afterName : ∀ members name stack, p = .afterName members name stack →
    ∃ raw, [.string raw] <:+ ts ∧ unescape raw = some name
  value : ∀ members name stack, p = .value (.object members name :: stack) →
    ∃ raw, [.string raw, .nameSeparator] <:+ ts ∧ unescape raw = some name

theorem Sound.complete {value : Json} (hstack : ∀ v ∈ stack.map Frame.value, MembersOccur ts v)
    (hvalue : MembersOccur ts value)
    (htop : ∀ members name rest text, stack = .object members name :: rest →
      value = .string text → Occurs ts name text) : Sound ts (complete value stack) := by
  cases stack with
  | nil => exact ⟨fun v hv => List.mem_singleton.1 hv ▸ hvalue, nofun, nofun⟩
  | cons frame stack =>
      obtain ⟨hframe, hrest⟩ := List.forall_mem_cons.1 hstack
      cases frame with
      | array elements =>
          refine ⟨List.forall_mem_cons.2 ⟨?_, hrest⟩, nofun, nofun⟩
          intro name text hmember
          rcases hmember.of_array_concat with hmember | hmember
          · exact hframe name text hmember
          · exact hvalue name text hmember
      | object members name' =>
          refine ⟨List.forall_mem_cons.2 ⟨?_, hrest⟩, nofun, nofun⟩
          intro name text hmember
          -- a string that is the new member itself stands behind its name
          rcases hmember.of_object_concat with hmember | ⟨rfl, rfl⟩ | hmember
          · exact hframe name text hmember
          · exact htop members name stack text rfl rfl
          · exact hvalue name text hmember

/-- A word is no string and has no members. -/
theorem scalar_cases {text : List UInt8} {value : Json} (h : scalar text = some value) :
    value = .null ∨ (∃ b, value = .bool b) ∨ value = .number text := by
  rw [scalar] at h
  split_ifs at h
  · exact Or.inl (Option.some.inj h).symm
  · exact Or.inr (Or.inl ⟨true, (Option.some.inj h).symm⟩)
  · exact Or.inr (Or.inl ⟨false, (Option.some.inj h).symm⟩)
  · split at h
    · split at h
      · exact Or.inr (Or.inr (Option.some.inj h).symm)
      · cases h
    · cases h

theorem Sound.beginValue (hstack : ∀ v ∈ stack.map Frame.value, MembersOccur ts v)
    (htop : ∀ members name rest, stack = .object members name :: rest →
      ∃ raw, [.string raw, .nameSeparator] <:+ ts ∧ unescape raw = some name)
    (h : beginValue stack t = some q) : Sound (ts ++ [t]) q := by
  have hstack' : ∀ v ∈ stack.map Frame.value, MembersOccur (ts ++ [t]) v :=
    fun v hv => (hstack v hv).concat t
  cases t with
  | string raw =>
      obtain ⟨text, htext, rfl⟩ := Option.map_eq_some_iff.1 h
      refine .complete hstack' (fun _ _ hmember => by cases hmember) ?_
      intro members name rest text' hobject hsame
      obtain rfl := Json.string.inj hsame
      -- the name and the colon are the last two tokens before the string
      obtain ⟨raw', ⟨before, hbefore⟩, hname⟩ := htop members name rest hobject
      exact ⟨raw', raw, ⟨before, [], by rw [← hbefore]; simp⟩, hname, htext⟩
  | word text =>
      obtain ⟨value, hvalue, rfl⟩ := Option.map_eq_some_iff.1 h
      rcases scalar_cases hvalue with rfl | ⟨b, rfl⟩ | rfl
      · exact .complete hstack' (fun _ _ hmember => by cases hmember) nofun
      · exact .complete hstack' (fun _ _ hmember => by cases hmember) nofun
      · exact .complete hstack' (fun _ _ hmember => by cases hmember) nofun
  | beginArray =>
      obtain rfl := Option.some.inj h
      exact ⟨hstack', nofun, nofun⟩
  | beginObject =>
      obtain rfl := Option.some.inj h
      exact ⟨hstack', nofun, nofun⟩
  | endArray => cases h
  | endObject => cases h
  | nameSeparator => cases h
  | valueSeparator => cases h

/-- The name of a member has been read. -/
theorem Sound.name {members : List (List UInt8 × Json)} {name : List UInt8}
    (hvalues : ∀ v ∈ (nextName members stack).values, MembersOccur (ts ++ [.string raw]) v)
    (hname : unescape raw = some name) :
    Sound (ts ++ [.string raw]) (Parser.afterName members name stack) := by
  refine ⟨hvalues, ?_, nofun⟩
  intro members' name' rest hsame
  cases hsame
  exact ⟨raw, List.suffix_append _ _, hname⟩

theorem Sound.step (h : p.Sound ts) (hstep : p.step t = some q) : Sound (ts ++ [t]) q := by
  have hmembers : ∀ v ∈ p.values, MembersOccur (ts ++ [t]) v :=
    fun v hv => (h.members v hv).concat t
  cases p with
  -- in an object, the name of the value has been read
  | value stack =>
      refine .beginValue h.members ?_ hstep
      rintro members name rest rfl
      exact h.value members name rest rfl
  | firstElement stack =>
      have hopen : ∀ v ∈ (Frame.array [] :: stack).map Frame.value, MembersOccur ts v :=
        List.forall_mem_cons.2 ⟨.array_nil ts, h.members⟩
      cases t with
      | endArray =>
          obtain rfl := Option.some.inj hstep
          exact .complete hmembers (.array_nil _) nofun
      | _ => exact .beginValue hopen nofun hstep
  | afterElement elements stack =>
      cases t with
      | valueSeparator =>
          obtain rfl := Option.some.inj hstep
          exact ⟨hmembers, nofun, nofun⟩
      | endArray =>
          obtain rfl := Option.some.inj hstep
          obtain ⟨hvalue, hstack⟩ := List.forall_mem_cons.1 hmembers
          exact .complete hstack hvalue nofun
      | _ => cases hstep
  | firstName stack =>
      cases t with
      | endObject =>
          obtain rfl := Option.some.inj hstep
          exact .complete hmembers (.object_nil _) nofun
      | string raw =>
          obtain ⟨name, hname, rfl⟩ := Option.map_eq_some_iff.1 hstep
          exact .name (List.forall_mem_cons.2 ⟨.object_nil _, hmembers⟩) hname
      | _ => cases hstep
  | nextName members stack =>
      cases t with
      | string raw =>
          obtain ⟨name, hname, rfl⟩ := Option.map_eq_some_iff.1 hstep
          exact .name hmembers hname
      | _ => cases hstep
  | afterName members name stack =>
      cases t with
      | nameSeparator =>
          obtain rfl := Option.some.inj hstep
          refine ⟨hmembers, nofun, ?_⟩
          intro members' name' rest hsame
          cases hsame
          -- the colon comes directly behind the name
          obtain ⟨raw, ⟨before, hbefore⟩, hname⟩ := h.afterName members name stack rfl
          exact ⟨raw, ⟨before, by rw [← hbefore]; simp⟩, hname⟩
      | _ => cases hstep
  | afterMember members stack =>
      cases t with
      | valueSeparator =>
          obtain rfl := Option.some.inj hstep
          exact ⟨hmembers, nofun, nofun⟩
      | endObject =>
          obtain rfl := Option.some.inj hstep
          obtain ⟨hvalue, hstack⟩ := List.forall_mem_cons.1 hmembers
          exact .complete hstack hvalue nofun
      | _ => cases hstep
  | done result => cases hstep

theorem sound_of_run (h : Run step (.value []) ts p) : Sound ts p := by
  have hinit : Sound [] (value []) := ⟨by simp [values], nofun, nofun⟩
  refine Run.induction (motive := Sound) hinit ?_ h
  intro seen t token u _ hstep ih
  exact ih.step hstep

/-- Every string that the parser takes stands for some text. -/
theorem unescape_of_step (hstep : p.step (.string raw) = some q) :
    ∃ text, unescape raw = some text := by
  have hmap : ∀ {f : List UInt8 → Parser}, (unescape raw).map f = some q →
      ∃ text, unescape raw = some text := by
    intro f h
    obtain ⟨text, htext, _⟩ := Option.map_eq_some_iff.1 h
    exact ⟨text, htext⟩
  cases p with
  | value | firstElement | firstName | nextName => exact hmap hstep
  | afterElement | afterName | afterMember | done => cases hstep

theorem unescape_of_run (h : Run step p ts q) (hraw : .string raw ∈ ts) :
    ∃ text, unescape raw = some text := by
  induction ts generalizing p with
  | nil => cases hraw
  | cons t ts ih =>
      obtain ⟨middle, hstep, hrun⟩ := Run.cons_iff.1 h
      rcases List.mem_cons.1 hraw with rfl | hraw
      · exact unescape_of_step hstep
      · exact ih hrun hraw

end Parser

/-! ## Parsing -/

theorem tokens_eq_some_iff {text : List UInt8} {ts : List Token} : tokens text = some ts ↔
    ∃ word us, (Lexer.outside []).Reads text (.outside word) us ∧ ts = us ++ Lexer.flush word := by
  rw [tokens]
  constructor
  · intro h
    split at h
    · rename_i word us hread
      exact ⟨word, us, hread, (Option.some.inj h).symm⟩
    · cases h
  · rintro ⟨word, us, hread, rfl⟩
    rw [hread]

theorem parse_eq_some_iff {text : List UInt8} {value : Json} : parse text = some value ↔
    ∃ ts, tokens text = some ts ∧ Run Parser.step (.value []) ts (.done value) := by
  rw [parse, Option.bind_eq_bind, Option.bind_eq_some_iff]
  refine exists_congr fun ts => and_congr_right fun _ => ?_
  constructor
  · intro h
    split at h
    · rename_i result hrun
      obtain rfl := Option.some.inj h
      exact hrun
    · cases h
  · intro h
    rw [h]

/-! ## Texts with a known value -/

/-- Pieces with commas between them. -/
def join : List (List Token) → List Token
  | [] => []
  | [ts] => ts
  | ts :: tss => ts ++ .valueSeparator :: join tss

theorem join_cons_cons (ts us : List Token) (tss : List (List Token)) :
    join (ts :: us :: tss) = ts ++ .valueSeparator :: join (us :: tss) :=
  rfl

theorem join_cons_of_forall₂ {α : Type} {R : α → List Token → Prop} {x : α} {xs : List α}
    {ts : List Token} {tss : List (List Token)} (h : List.Forall₂ R (x :: xs) tss) :
    join (ts :: tss) = ts ++ .valueSeparator :: join tss := by
  cases h
  rfl

theorem mem_join {t : Token} {ts : List Token} {tss : List (List Token)} (hts : ts ∈ tss)
    (ht : t ∈ ts) : t ∈ join tss := by
  induction tss with
  | nil => cases hts
  | cons us tss ih =>
      cases tss with
      | nil => exact List.mem_singleton.1 hts ▸ ht
      | cons vs tss =>
          rcases List.mem_cons.1 hts with rfl | hts
          · exact List.mem_append_left _ ht
          · exact List.mem_append_right _ (List.mem_cons_of_mem _ (ih hts))

/-- What has no comma is in one of the pieces. -/
theorem infix_of_join {part : List Token} {tss : List (List Token)} (h : part <:+: join tss)
    (hsome : part ≠ []) (hcomma : .valueSeparator ∉ part) : ∃ ts ∈ tss, part <:+: ts := by
  induction tss with
  | nil => exact absurd (List.infix_nil.1 h) hsome
  | cons ts tss ih =>
      cases tss with
      | nil => exact ⟨ts, List.mem_cons_self, h⟩
      | cons us tss =>
          -- the piece lies on one side of the first comma
          rcases infix_of_append_cons h hcomma with h | h
          · exact ⟨ts, List.mem_cons_self, h⟩
          · obtain ⟨found, hmem, hfound⟩ := ih h
            exact ⟨found, List.mem_cons_of_mem ts hmem, hfound⟩

/-- The tokens are read as the value wherever a value may stand. -/
def Denotes (ts : List Token) (value : Json) : Prop :=
  ∀ stack, Run Parser.step (.value stack) ts (Parser.complete value stack)

/-- The tokens are read as the member of an object. -/
def DenotesMember (ts : List Token) (member : List UInt8 × Json) : Prop :=
  ∃ raw us, ts = .string raw :: .nameSeparator :: us ∧ unescape raw = some member.1 ∧
    Denotes us member.2

section Denotes

variable {ts : List Token} {tss : List (List Token)} {value : Json} {stack : List Frame}

theorem denotes_string {raw text : List UInt8} (h : unescape raw = some text) :
    Denotes [.string raw] (.string text) := by
  intro stack
  refine Run.cons_iff.2 ⟨_, ?_, Run.nil_iff.2 rfl⟩
  rw [Parser.step, Parser.beginValue, h]
  rfl

/-- The first element of an array is no different from the others. -/
theorem run_firstElement {p : Parser} (hrun : Run Parser.step (.value (.array [] :: stack)) ts p)
    (hp : p ≠ .value (.array [] :: stack)) : Run Parser.step (.firstElement stack) ts p := by
  cases ts with
  | nil => exact absurd (Run.nil_iff.1 hrun).symm hp
  | cons t ts =>
      obtain ⟨middle, hstep, hrest⟩ := Run.cons_iff.1 hrun
      refine Run.cons_iff.2 ⟨middle, ?_, hrest⟩
      cases t with
      -- an array that ends here would have nothing in it
      | endArray => cases hstep
      | _ => exact hstep

theorem run_elements {elements elements' : List Json} (h : List.Forall₂ Denotes tss elements')
    (hsome : tss ≠ []) : Run Parser.step (.value (.array elements :: stack)) (join tss)
      (.afterElement (elements ++ elements') stack) := by
  induction h generalizing elements with
  | nil => exact absurd rfl hsome
  | @cons ts element tss elements' hfirst hrest ih =>
      cases hrest with
      | nil => exact hfirst _
      | cons hsecond hothers =>
          rw [join_cons_cons]
          refine Run.append_iff.2 ⟨_, hfirst _, Run.cons_iff.2 ⟨_, rfl, ?_⟩⟩
          -- after the comma, the first element is one of those that were read
          have hafter := @ih (elements ++ [element]) (List.cons_ne_nil _ _)
          rwa [List.append_assoc] at hafter

theorem denotes_array {elements : List Json} (h : List.Forall₂ Denotes tss elements) :
    Denotes (.beginArray :: (join tss ++ [.endArray])) (.array elements) := by
  intro stack
  refine Run.cons_iff.2 ⟨.firstElement stack, rfl, ?_⟩
  cases h with
  | nil => exact Run.cons_iff.2 ⟨_, rfl, Run.nil_iff.2 rfl⟩
  | cons hfirst hrest =>
      have helements := @run_elements _ stack [] _ (.cons hfirst hrest) (List.cons_ne_nil _ _)
      exact (run_firstElement helements nofun).concat rfl

/-- The first member of an object is no different from the others. -/
theorem run_firstName {p : Parser} (hrun : Run Parser.step (.nextName [] stack) ts p)
    (hp : p ≠ .nextName [] stack) : Run Parser.step (.firstName stack) ts p := by
  cases ts with
  | nil => exact absurd (Run.nil_iff.1 hrun).symm hp
  | cons t ts =>
      obtain ⟨middle, hstep, hrest⟩ := Run.cons_iff.1 hrun
      refine Run.cons_iff.2 ⟨middle, ?_, hrest⟩
      cases t with
      | string raw => exact hstep
      | _ => cases hstep

theorem run_member {member : List UInt8 × Json} {members : List (List UInt8 × Json)}
    (h : DenotesMember ts member) : Run Parser.step (.nextName members stack) ts
      (.afterMember (members ++ [member]) stack) := by
  obtain ⟨raw, us, rfl, hname, hvalue⟩ := h
  refine Run.cons_iff.2 ⟨.afterName members member.1 stack, ?_, Run.cons_iff.2 ⟨_, rfl, hvalue _⟩⟩
  rw [Parser.step, hname]
  rfl

theorem run_members {members members' : List (List UInt8 × Json)}
    (h : List.Forall₂ DenotesMember tss members') (hsome : tss ≠ []) :
    Run Parser.step (.nextName members stack) (join tss)
      (.afterMember (members ++ members') stack) := by
  induction h generalizing members with
  | nil => exact absurd rfl hsome
  | @cons ts member tss members' hfirst hrest ih =>
      cases hrest with
      | nil => exact run_member hfirst
      | cons hsecond hothers =>
          rw [join_cons_cons]
          refine Run.append_iff.2 ⟨_, run_member hfirst, Run.cons_iff.2 ⟨_, rfl, ?_⟩⟩
          -- after the comma, the first member is one of those that were read
          have hafter := @ih (members ++ [member]) (List.cons_ne_nil _ _)
          rwa [List.append_assoc] at hafter

theorem denotes_object {members : List (List UInt8 × Json)}
    (h : List.Forall₂ DenotesMember tss members) :
    Denotes (.beginObject :: (join tss ++ [.endObject])) (.object members) := by
  intro stack
  refine Run.cons_iff.2 ⟨.firstName stack, rfl, ?_⟩
  cases h with
  | nil => exact Run.cons_iff.2 ⟨_, rfl, Run.nil_iff.2 rfl⟩
  | cons hfirst hrest =>
      have hmembers := @run_members _ stack [] _ (.cons hfirst hrest) (List.cons_ne_nil _ _)
      exact (run_firstName hmembers nofun).concat rfl

end Denotes

end Json

end Lib
end V8JsiRuntime
