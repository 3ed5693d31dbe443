import Mathlib.Algebra.GroupWithZero.Nat
import V8JsiRuntime.Lib.Json

/-!
# JsonTokens — the tokens of a text in pieces

The lexer reads one piece of a text after another.  A string ends at the first quote without a
backslash, it does not go over a line, and it is no longer than the bytes that it was read from.
-/

namespace V8JsiRuntime
namespace Lib

namespace Json

/-! ## Reading piece by piece -/

/-- A byte that stands for itself in a string. -/
def IsUnescaped (b : UInt8) : Prop :=
  ¬ b < 0x20 ∧ b ≠ 0x22 ∧ b ≠ 0x5C

instance : DecidablePred IsUnescaped :=
  fun _ => inferInstanceAs (Decidable (_ ∧ _))

namespace Lexer

/-- The lexer reads the text, and these are the tokens. -/
def Reads (lexer : Lexer) (text : List UInt8) (lexer' : Lexer) (tokens : List Token) : Prop :=
  lexer.lex text = some (lexer', tokens)

namespace Reads

variable {lexer lexer' : Lexer} {xs ys raw : List UInt8} {b : UInt8} {ts : List Token}

@[simp] theorem nil_iff : Reads lexer [] lexer' ts ↔ lexer = lexer' ∧ ts = [] := by
  simp [Reads, lex, eq_comm]

theorem cons_iff : Reads lexer (b :: xs) lexer' ts ↔
    ∃ middle us vs, lexer.step b = some (middle, us) ∧ Reads middle xs lexer' vs ∧
      ts = us ++ vs := by
  simp only [Reads, lex, Option.bind_eq_bind, Option.bind_eq_some_iff, Prod.exists, pure,
    Option.some.injEq, Prod.mk.injEq]
  constructor
  · rintro ⟨middle, us, hstep, last, vs, hread, rfl, rfl⟩
    exact ⟨middle, us, vs, hstep, hread, rfl⟩
  · rintro ⟨middle, us, vs, hstep, hread, rfl⟩
    exact ⟨middle, us, hstep, lexer', vs, hread, rfl, rfl⟩

theorem append_iff : Reads lexer (xs ++ ys) lexer' ts ↔
    ∃ middle us vs, Reads lexer xs middle us ∧ Reads middle ys lexer' vs ∧ ts = us ++ vs := by
  induction xs generalizing lexer ts with
  | nil => simp
  | cons b xs ih =>
      simp only [List.cons_append, cons_iff, ih]
      constructor
      · rintro ⟨first, us, _, hstep, ⟨middle, vs, ws, hxs, hys, rfl⟩, rfl⟩
        exact ⟨middle, us ++ vs, ws, ⟨first, us, vs, hstep, hxs, rfl⟩, hys,
          (List.append_assoc _ _ _).symm⟩
      · rintro ⟨middle, _, ws, ⟨first, us, vs, hstep, hxs, rfl⟩, hys, rfl⟩
        exact ⟨first, us, vs ++ ws, hstep, ⟨middle, vs, ws, hxs, hys, rfl⟩,
          List.append_assoc _ _ _⟩

theorem functional {lexer'' : Lexer} {us : List Token} (h : Reads lexer xs lexer' ts)
    (h' : Reads lexer xs lexer'' us) : lexer' = lexer'' ∧ ts = us :=
  Prod.mk.inj (Option.some.inj (h.symm.trans h'))

theorem append {lexer'' : Lexer} {us : List Token} (h : Reads lexer xs lexer' ts)
    (h' : Reads lexer' ys lexer'' us) : Reads lexer (xs ++ ys) lexer'' (ts ++ us) :=
  append_iff.2 ⟨lexer', ts, us, h, h', rfl⟩

/-- What comes behind a piece whose reading is known. -/
theorem behind {middle : Lexer} {us : List Token} (hxs : Reads lexer xs middle us) :
    Reads lexer (xs ++ ys) lexer' ts ↔ ∃ vs, Reads middle ys lexer' vs ∧ ts = us ++ vs := by
  rw [append_iff]
  constructor
  · rintro ⟨middle', us', vs, hxs', hys, rfl⟩
    obtain ⟨rfl, rfl⟩ := hxs.functional hxs'
    exact ⟨vs, hys, rfl⟩
  · rintro ⟨vs, hys, rfl⟩
    exact ⟨middle, us, vs, hxs, hys, rfl⟩

/-! ### Inside a string -/

theorem unescaped (h : ∀ b ∈ xs, IsUnescaped b) :
    Reads (inside raw) xs (inside (raw ++ xs)) [] := by
  induction xs generalizing raw with
  | nil => simp
  | cons b xs ih =>
      obtain ⟨hcontrol, hquote, hbackslash⟩ := h b List.mem_cons_self
      have hrest : Reads (inside (raw ++ [b])) xs (inside (raw ++ [b] ++ xs)) [] :=
        ih fun c hc => h c (List.mem_cons_of_mem b hc)
      rw [List.append_assoc] at hrest
      refine cons_iff.2 ⟨inside (raw ++ [b]), [], [], ?_, hrest, rfl⟩
      rw [step, if_neg hcontrol, if_neg hquote, if_neg hbackslash]

/-- No string goes over a line. -/
theorem not_newline (hxs : ∀ b ∈ xs, b ≠ 0x22 ∧ b ≠ 0x5C) :
    ¬ Reads (inside raw) (xs ++ 0x0A :: ys) lexer' ts := by
  induction xs generalizing raw ts with
  | nil =>
      intro h
      obtain ⟨_, _, _, hstep, _⟩ := cons_iff.1 h
      cases hstep
  | cons b xs ih =>
      intro h
      obtain ⟨hquote, hbackslash⟩ := hxs b List.mem_cons_self
      obtain ⟨middle, us, vs, hstep, hrest, _⟩ := cons_iff.1 h
      rw [step, if_neg hquote, if_neg hbackslash] at hstep
      split at hstep
      · cases hstep
      -- the string goes on up to the end of the line
      · obtain ⟨rfl, rfl⟩ := Prod.mk.inj (Option.some.inj hstep)
        exact ih (fun c hc => hxs c (List.mem_cons_of_mem b hc)) hrest

/-- A quote closes a string if the line ends without another one. -/
theorem inside_of_quote (hxs : ∀ b ∈ xs, b ≠ 0x22 ∧ b ≠ 0x5C)
    (h : Reads lexer (0x22 :: (xs ++ 0x0A :: ys)) lexer' ts) : ∃ raw, lexer = inside raw := by
  obtain ⟨middle, us, vs, hstep, hrest, _⟩ := cons_iff.1 h
  cases lexer with
  | inside raw => exact ⟨raw, rfl⟩
  -- the quote would begin or continue a string that the line does not end
  | outside word =>
      obtain ⟨rfl, _⟩ := Prod.mk.inj (Option.some.inj hstep)
      exact absurd hrest (not_newline hxs)
  | escaped raw =>
      obtain ⟨rfl, _⟩ := Prod.mk.inj (Option.some.inj hstep)
      exact absurd hrest (not_newline hxs)

/-- From a place in a string on, either all bytes belong to it, or it ends at a quote. -/
theorem string_cases : ∀ raw ts,
    (Reads (inside raw) xs lexer' ts →
      (ts = [] ∧ (lexer' = inside (raw ++ xs) ∨ lexer' = escaped (raw ++ xs)) ∧
        (0x5C ∈ xs ∨ ∀ b ∈ xs, IsUnescaped b)) ∨
      ∃ front back us, xs = front ++ 0x22 :: back ∧ ts = .string (raw ++ front) :: us ∧
        Reads (outside []) back lexer' us) ∧
    (Reads (escaped raw) xs lexer' ts →
      (ts = [] ∧ (lexer' = inside (raw ++ xs) ∨ lexer' = escaped (raw ++ xs))) ∨
      ∃ front back us, xs = front ++ 0x22 :: back ∧ ts = .string (raw ++ front) :: us ∧
        Reads (outside []) back lexer' us) := by
  -- both places at once, as a backslash leads from one to the other and back
  induction xs with
  | nil =>
      intro raw ts
      constructor
      · intro h
        obtain ⟨rfl, rfl⟩ := nil_iff.1 h
        exact Or.inl ⟨rfl, Or.inl (by simp), Or.inr (by simp)⟩
      · intro h
        obtain ⟨rfl, rfl⟩ := nil_iff.1 h
        exact Or.inl ⟨rfl, Or.inr (by simp)⟩
  | cons b xs ih =>
      intro raw ts
      obtain ⟨hinside, hescaped⟩ := ih (raw ++ [b]) ts
      simp only [List.append_assoc, List.singleton_append] at hinside hescaped
      constructor
      · intro h
        obtain ⟨middle, us, vs, hstep, hrest, rfl⟩ := cons_iff.1 h
        rw [step] at hstep
        split at hstep
        · cases hstep
        · rename_i hcontrol
          split at hstep
          · rename_i hquote
            obtain ⟨rfl, rfl⟩ := Prod.mk.inj (Option.some.inj hstep)
            -- the quote ends the string, and what is behind it is read from outside
            exact Or.inr ⟨[], xs, vs, by simp [hquote], by simp, hrest⟩
          · rename_i hquote
            split at hstep
            · rename_i hbackslash
              obtain ⟨rfl, rfl⟩ := Prod.mk.inj (Option.some.inj hstep)
              rcases hescaped hrest with ⟨hnil, hlast⟩ | ⟨front, back, us, rfl, hts, hback⟩
              · exact Or.inl ⟨hnil, hlast, Or.inl (by simp [hbackslash])⟩
              · exact Or.inr ⟨b :: front, back, us, rfl, hts, hback⟩
            · rename_i hbackslash
              obtain ⟨rfl, rfl⟩ := Prod.mk.inj (Option.some.inj hstep)
              rcases hinside hrest with ⟨hnil, hlast, hall⟩ | ⟨front, back, us, rfl, hts, hback⟩
              · refine Or.inl ⟨hnil, hlast, hall.imp (List.mem_cons_of_mem b) fun hall => ?_⟩
                exact List.forall_mem_cons.2 ⟨⟨hcontrol, hquote, hbackslash⟩, hall⟩
              · exact Or.inr ⟨b :: front, back, us, rfl, hts, hback⟩
      · intro h
        obtain ⟨middle, us, vs, hstep, hrest, rfl⟩ := cons_iff.1 h
        rw [step] at hstep
        split at hstep
        · cases hstep
        · obtain ⟨rfl, rfl⟩ := Prod.mk.inj (Option.some.inj hstep)
          rcases hinside hrest with ⟨hnil, hlast, _⟩ | ⟨front, back, us, rfl, hts, hback⟩
          · exact Or.inl ⟨hnil, hlast⟩
          · exact Or.inr ⟨b :: front, back, us, rfl, hts, hback⟩

end Reads

/-- The bytes of a string that are read already. -/
def size : Lexer → Nat
  | outside _ => 0
  | inside raw | escaped raw => raw.length

theorem string_notMem_flush (word raw : List UInt8) : .string raw ∉ flush word := by
  intro hmem
  rw [flush] at hmem
  split at hmem
  · cases hmem
  · cases List.mem_singleton.1 hmem

theorem step_size {lexer lexer' : Lexer} {b : UInt8} {ts : List Token}
    (h : lexer.step b = some (lexer', ts)) :
    lexer'.size ≤ lexer.size + 1 ∧ ∀ raw, .string raw ∈ ts → raw.length ≤ lexer.size := by
  cases lexer with
  | outside word =>
      rw [step] at h
      split at h
      · obtain ⟨rfl, rfl⟩ := Prod.mk.inj (Option.some.inj h)
        exact ⟨Nat.zero_le _, fun raw hraw => absurd hraw (string_notMem_flush word raw)⟩
      · split at h
        · obtain ⟨rfl, rfl⟩ := Prod.mk.inj (Option.some.inj h)
          exact ⟨Nat.zero_le _, fun raw hraw => absurd hraw (string_notMem_flush word raw)⟩
        · split at h
          · rename_i token htoken
            obtain ⟨rfl, rfl⟩ := Prod.mk.inj (Option.some.inj h)
            refine ⟨Nat.zero_le _, fun raw hraw => ?_⟩
            rcases List.mem_append.1 hraw with hraw | hraw
            · exact absurd hraw (string_notMem_flush word raw)
            · -- no string is punctuation
              rw [← List.mem_singleton.1 hraw] at htoken
              simp only [punctuation] at htoken
              split_ifs at htoken <;> cases htoken
          · obtain ⟨rfl, rfl⟩ := Prod.mk.inj (Option.some.inj h)
            exact ⟨Nat.zero_le _, nofun⟩
  | inside raw =>
      rw [step] at h
      split at h
      · cases h
      · split at h
        · obtain ⟨rfl, rfl⟩ := Prod.mk.inj (Option.some.inj h)
          refine ⟨Nat.zero_le _, fun other hother => ?_⟩
          cases List.mem_singleton.1 hother
          exact Nat.le_refl _
        · split at h
          · obtain ⟨rfl, rfl⟩ := Prod.mk.inj (Option.some.inj h)
            exact ⟨by simp [size], nofun⟩
          · obtain ⟨rfl, rfl⟩ := Prod.mk.inj (Option.some.inj h)
            exact ⟨by simp [size], nofun⟩
  | escaped raw =>
      rw [step] at h
      split at h
      · cases h
      · obtain ⟨rfl, rfl⟩ := Prod.mk.inj (Option.some.inj h)
        exact ⟨by simp [size], nofun⟩

/-- No string is longer than what it was read from. -/
theorem Reads.size_le {lexer lexer' : Lexer} {xs : List UInt8} {ts : List Token}
    (h : Reads lexer xs lexer' ts) : lexer'.size ≤ lexer.size + xs.length ∧
      ∀ raw, .string raw ∈ ts → raw.length ≤ lexer.size + xs.length := by
  induction xs generalizing lexer ts with
  | nil =>
      obtain ⟨rfl, rfl⟩ := Reads.nil_iff.1 h
      exact ⟨Nat.le_refl _, nofun⟩
  | cons b xs ih =>
      obtain ⟨middle, us, vs, hstep, hrest, rfl⟩ := Reads.cons_iff.1 h
      obtain ⟨hsize, hus⟩ := step_size hstep
      obtain ⟨hlast, hvs⟩ := ih hrest
      rw [List.length_cons]
      refine ⟨by omega, fun raw hraw => ?_⟩
      rcases List.mem_append.1 hraw with hraw | hraw
      · have := hus raw hraw
        omega
      · have := hvs raw hraw
        omega

end Lexer

/-! ### A string up to its closing quote -/

namespace Lexer

/-- The bytes and a quote behind them are read as these tokens, and the last one is a string that the
quote closes. -/
def ReadsString (xs : List UInt8) (ts : List Token) : Prop :=
  Reads (inside []) (xs ++ [0x22]) (outside []) ts

variable {lexer : Lexer} {xs between rest : List UInt8} {ts : List Token}

theorem ReadsString.unescaped (h : ∀ b ∈ xs, IsUnescaped b) : ReadsString xs [.string xs] :=
  (Reads.unescaped h).append (Reads.cons_iff.2 ⟨outside [], [.string xs], [], rfl, by simp, rfl⟩)

/-- A string at the end of a line. -/
theorem reads_string_line_iff (hbetween : ∀ b ∈ between, b ≠ 0x22 ∧ b ≠ 0x5C) :
    Reads (inside []) (xs ++ 0x22 :: (between ++ 0x0A :: rest)) lexer ts ↔
      ∃ us vs, ReadsString xs us ∧ Reads (outside []) (between ++ 0x0A :: rest) lexer vs ∧
        ts = us ++ vs := by
  constructor
  · intro h
    obtain ⟨middle, us, vs, hxs, hline, rfl⟩ := Reads.append_iff.1 h
    obtain ⟨raw, rfl⟩ := Reads.inside_of_quote hbetween hline
    obtain ⟨last, _, ws, hstep, hrest, rfl⟩ := Reads.cons_iff.1 hline
    obtain ⟨rfl, rfl⟩ := Prod.mk.inj (Option.some.inj hstep)
    refine ⟨us ++ [.string raw], ws, ?_, hrest, by simp⟩
    exact hxs.append (Reads.cons_iff.2 ⟨outside [], [.string raw], [], rfl, by simp, rfl⟩)
  · rintro ⟨us, vs, hxs, hrest, rfl⟩
    rw [show xs ++ 0x22 :: (between ++ 0x0A :: rest) =
      (xs ++ [0x22]) ++ (between ++ 0x0A :: rest) by simp]
    exact hxs.append hrest

/-- Either all bytes are the string, or the first quote among them ends it early. -/
theorem ReadsString.cases (h : ReadsString xs ts) :
    (ts = [.string xs] ∧ (0x5C ∈ xs ∨ ∀ b ∈ xs, IsUnescaped b)) ∨
      ∃ front back us, xs = front ++ 0x22 :: back ∧ ts = .string front :: us ∧
        ∀ raw, .string raw ∈ us → raw.length ≤ back.length := by
  obtain ⟨middle, us, vs, hxs, hquote, rfl⟩ := Reads.append_iff.1 h
  obtain ⟨last, ws, _, hstep, hnil, rfl⟩ := Reads.cons_iff.1 hquote
  obtain ⟨rfl, rfl⟩ := Reads.nil_iff.1 hnil
  -- the last quote closes a string
  obtain ⟨raw, rfl⟩ : ∃ raw, middle = inside raw := by
    cases middle with
    | inside raw => exact ⟨raw, rfl⟩
    | outside word => cases (Prod.mk.inj (Option.some.inj hstep)).1
    | escaped raw => cases (Prod.mk.inj (Option.some.inj hstep)).1
  obtain ⟨_, rfl⟩ := Prod.mk.inj (Option.some.inj hstep)
  rcases (Reads.string_cases [] us).1 hxs with
    ⟨rfl, hlast, hall⟩ | ⟨front, back, us, rfl, rfl, hback⟩
  · refine Or.inl ⟨?_, hall⟩
    -- the closing quote is not escaped
    rcases hlast with hlast | hlast
    · rw [Lexer.inside.inj hlast]
      rfl
    · cases hlast
  · refine Or.inr ⟨front, back, us ++ [.string raw], rfl, rfl, ?_⟩
    obtain ⟨hsize, hstrings⟩ := hback.size_le
    simp only [size, Nat.zero_add] at hsize hstrings
    intro other hother
    rcases List.mem_append.1 hother with hother | hother
    · exact hstrings other hother
    · cases List.mem_singleton.1 hother
      exact hsize

end Lexer

/-! ## The string of a token -/

theorem symbols_of_unescaped {raw : List UInt8} (h : 0x5C ∉ raw) :
    symbols raw = some (raw.map .byte) := by
  induction raw with
  | nil => rfl
  | cons b raw ih =>
      have hb : b ≠ 0x5C := fun heq => h (heq ▸ List.mem_cons_self)
      unfold symbols
      rw [if_neg hb, ih fun hmem => h (List.mem_cons_of_mem b hmem)]
      rfl

theorem encodeSymbols_bytes (raw : List UInt8) : encodeSymbols (raw.map .byte) = raw := by
  induction raw with
  | nil => rfl
  | cons b raw ih => exact congrArg (b :: ·) ih

/-- Without a backslash a string stands for itself. -/
theorem unescape_of_unescaped {raw : List UInt8} (h : 0x5C ∉ raw) (hraw : IsUtf8 raw) :
    unescape raw = some raw := by
  rw [unescape, if_pos ((isUtf8_iff raw).2 hraw), symbols_of_unescaped h, Option.map_some,
    encodeSymbols_bytes]

/-- Between the number of bytes that a symbol stands for and of those that it is written as. -/
def Symbol.weight : Symbol → Nat
  | .byte _ => 1
  | .unit _ => 3

theorem length_encodeUnit_le (unit : UInt16) : (encodeCodePoint unit.toNat).length ≤ 3 := by
  have hunit : unit.toNat < 65536 := unit.toNat_lt
  rw [length_encodeCodePoint]
  split_ifs <;> omega

theorem length_encodeSymbols_le (symbols : List Symbol) :
    (encodeSymbols symbols).length ≤ (symbols.map Symbol.weight).sum := by
  induction symbols using encodeSymbols.induct with
  | case1 => exact Nat.le_refl 0
  | case2 b symbols ih =>
      rw [encodeSymbols, List.map_cons, List.sum_cons, List.length_cons, Symbol.weight]
      omega
  | case3 unit =>
      have hunit := length_encodeUnit_le unit
      rw [encodeSymbols]
      exact hunit
  | case4 unit b symbols ih =>
      have hunit := length_encodeUnit_le unit
      rw [encodeSymbols, List.map_cons, List.sum_cons, List.length_append, Symbol.weight]
      omega
  | case5 unit next symbols hpair ih =>
      -- a pair is shorter than its two units are one by one
      have hlength : (encodeCodePoint (combine unit next)).length ≤ 4 := by
        rw [length_encodeCodePoint]
        split_ifs <;> omega
      rw [encodeSymbols, if_pos hpair, List.map_cons, List.map_cons, List.sum_cons, List.sum_cons,
        List.length_append, Symbol.weight, Symbol.weight]
      omega
  | case6 unit next symbols hsingle ih =>
      have hunit := length_encodeUnit_le unit
      rw [encodeSymbols, if_neg hsingle, List.map_cons, List.sum_cons, List.length_append,
        Symbol.weight]
      omega

/-- An escape sequence is longer than what it stands for. -/
theorem weight_symbols_le {raw : List UInt8} {ss : List Symbol} (h : symbols raw = some ss) :
    (ss.map Symbol.weight).sum + (if 0x5C ∈ raw then 1 else 0) ≤ raw.length := by
  induction raw using symbols.induct generalizing ss with
  | case1 =>
      obtain rfl := Option.some.inj h
      exact Nat.le_refl 0
  | case2 => cases h
  | case3 d₁ d₂ d₃ d₄ raw ih =>
      simp only [symbols, if_true, Option.bind_eq_bind, Option.bind_eq_some_iff, pure,
        Option.some.injEq] at h
      obtain ⟨_, _, _, _, _, _, _, _, rest, hrest, rfl⟩ := h
      -- six bytes for a unit of three
      have hraw := ih hrest
      rw [List.map_cons, List.sum_cons, Symbol.weight, if_pos List.mem_cons_self]
      simp only [List.length_cons]
      omega
  | case4 raw hshort =>
      unfold symbols at h
      simp only [if_true] at h
      cases h
  | case5 e raw he ih =>
      unfold symbols at h
      simp only [if_true, if_neg he, Option.bind_eq_bind, Option.bind_eq_some_iff, pure,
        Option.some.injEq] at h
      obtain ⟨_, _, rest, hrest, rfl⟩ := h
      have hraw := ih hrest
      rw [List.map_cons, List.sum_cons, Symbol.weight, if_pos List.mem_cons_self]
      simp only [List.length_cons]
      omega
  | case6 b raw hb ih =>
      unfold symbols at h
      rw [if_neg hb] at h
      obtain ⟨rest, hrest, rfl⟩ := Option.map_eq_some_iff.1 h
      have hraw := ih hrest
      rw [List.map_cons, List.sum_cons, Symbol.weight, List.length_cons]
      -- the byte itself is no backslash, so the one that counts is behind it
      by_cases hmem : 0x5C ∈ raw
      · rw [if_pos hmem] at hraw
        rw [if_pos (List.mem_cons_of_mem b hmem)]
        omega
      · rw [if_neg hmem] at hraw
        rw [if_neg (List.not_mem_cons_of_ne_of_not_mem (Ne.symm hb) hmem)]
        omega

theorem length_unescape_add_le {raw text : List UInt8} (h : unescape raw = some text) :
    text.length + (if 0x5C ∈ raw then 1 else 0) ≤ raw.length := by
  rw [unescape] at h
  split at h
  · obtain ⟨ss, hss, rfl⟩ := Option.map_eq_some_iff.1 h
    have hencode := length_encodeSymbols_le ss
    have hweight := weight_symbols_le hss
    omega
  · cases h

theorem length_unescape_le {raw text : List UInt8} (h : unescape raw = some text) :
    text.length ≤ raw.length :=
  Nat.le_trans (Nat.le_add_right _ _) (length_unescape_add_le h)

theorem length_unescape_lt {raw text : List UInt8} (h : unescape raw = some text)
    (hraw : 0x5C ∈ raw) : text.length < raw.length := by
  have hlength := length_unescape_add_le h
  rwa [if_pos hraw] at hlength

theorem isUtf8_of_unescape {raw text : List UInt8} (h : unescape raw = some text) :
    IsUtf8 raw := by
  rw [unescape] at h
  split at h
  · rename_i hraw
    exact (isUtf8_iff raw).1 hraw
  · cases h

end Json

end Lib
end V8JsiRuntime
