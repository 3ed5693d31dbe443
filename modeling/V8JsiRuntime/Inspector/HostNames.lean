import Mathlib.Data.List.TakeWhile
import V8JsiRuntime.Inspector.ListResponse

/-!
# HostNames — ports on host names, and which names count as addresses

`TrimPort` takes off what `FormatHostPort` puts on.  `IsIPAddress` decides which hosts are literals;
`exactHosts_iff` says for which strings it decides as the grammar of IPv4 addresses does.
-/

namespace V8JsiRuntime
namespace Inspector

/-! ## Ports -/

section Rfind

variable {s t : Bytes} {c : UInt8}

theorem findIdx?_reverse_eq_none (h : c ∉ t) : t.reverse.findIdx? (· == c) = none := by
  rw [List.findIdx?_eq_none_iff]
  intro x hx
  rw [beq_eq_false_iff_ne]
  rintro rfl
  exact h (List.mem_reverse.1 hx)

theorem rfind_eq_none (h : c ∉ s) : rfind s c = none := by
  rw [rfind, findIdx?_reverse_eq_none h, Option.map_none]

/-- The last occurrence, with nothing but other characters behind it. -/
theorem rfind_append_cons (h : c ∉ t) : rfind (s ++ c :: t) c = some s.length := by
  have hfirst : (s ++ c :: t).reverse.findIdx? (· == c) = some t.length := by
    rw [List.reverse_append, List.reverse_cons, List.append_assoc, List.findIdx?_append,
      findIdx?_reverse_eq_none h]
    simp [List.findIdx?_cons]
  rw [rfind, hfirst, Option.map_some, List.length_append, List.length_cons]
  congr 1
  omega

/-- An occurrence is found in front of characters that are others. -/
theorem rfind_append (h : c ∉ t) {i : Nat} (hi : rfind (s ++ t) c = some i) : i < s.length := by
  by_cases hmem : c ∈ s
  · obtain ⟨after, before, hsplit, hlast⟩ :=
      List.eq_append_cons_of_mem (List.mem_reverse.2 hmem)
    have hs : s = before.reverse ++ c :: after.reverse := by
      rw [← List.reverse_reverse s, hsplit, List.reverse_append, List.reverse_cons,
        List.append_assoc]
      rfl
    have hnot : c ∉ after.reverse ++ t := by
      rw [List.mem_append, List.mem_reverse, not_or]
      exact ⟨hlast, h⟩
    rw [hs, List.append_assoc, List.cons_append, rfind_append_cons hnot] at hi
    obtain rfl := Option.some.inj hi
    rw [hs, List.length_append, List.length_cons]
    omega
  · have hnone : rfind (s ++ t) c = none := rfind_eq_none fun hc => by
      rcases List.mem_append.1 hc with hc | hc
      · exact hmem hc
      · exact h hc
    cases hnone.symm.trans hi

end Rfind

/-- A port behind a colon is taken off, if it is free of colons and brackets. -/
theorem trimPort_append_cons (host : Bytes) {port : Bytes} (hcolon : 58 ∉ port)
    (hbracket : 93 ∉ port) : trimPort (host ++ 58 :: port) = host := by
  have htake : (host ++ 58 :: port).take host.length = host := List.take_left
  rw [trimPort, rfind_append_cons hcolon]
  dsimp only
  cases hrfind : rfind (host ++ 58 :: port) 93 with
  | none => exact htake
  | some bracket =>
      -- the last bracket stands in the host, in front of the colon
      have hbefore : bracket < host.length := by
        refine rfind_append (t := 58 :: port) ?_ hrfind
        rw [List.mem_cons, not_or]
        exact ⟨by decide, hbracket⟩
      dsimp only
      rw [if_pos hbefore, htake]

/-- The characters of a number as it is written to a stream. -/
theorem mem_decimal {port : Int} {b : UInt8} (hb : b ∈ ascii (toString port)) :
    b = 45 ∨ 48 ≤ b.toNat ∧ b.toNat ≤ 57 := by
  have hdigits : ∀ n : Nat, ∀ b ∈ ascii n.repr, 48 ≤ b.toNat ∧ b.toNat ≤ 57 := by
    intro n b hb
    obtain ⟨c, hc, rfl⟩ := List.mem_map.1 hb
    have hdigit := Nat.isDigit_of_mem_toDigits (by decide) (by decide)
      (by simpa using hc : c ∈ Nat.toDigits 10 n)
    rw [Char.isDigit, Bool.and_eq_true, decide_eq_true_eq, decide_eq_true_eq] at hdigit
    have hlow : 48 ≤ c.toNat := hdigit.1
    have hhigh : c.toNat ≤ 57 := hdigit.2
    rw [UInt8.toNat_ofNat_of_lt' (by show _ < 256; omega)]
    exact ⟨hlow, hhigh⟩
  cases port with
  | ofNat n => exact Or.inr (hdigits n b hb)
  | negSucc n =>
      have hsign : ascii (toString (Int.negSucc n)) = 45 :: ascii (n + 1).repr := by
        rw [ascii, ascii, show toString (Int.negSucc n) = "-" ++ (n + 1).repr from rfl,
          String.toList_append, List.map_append]
        rfl
      rw [hsign] at hb
      rcases List.mem_cons.1 hb with rfl | hb
      · exact Or.inl rfl
      · exact Or.inr (hdigits _ b hb)

theorem notMem_decimal (port : Int) {c : UInt8} (h : 57 < c.toNat) : c ∉ ascii (toString port) := by
  intro hmem
  rcases mem_decimal hmem with rfl | ⟨_, hle⟩
  · exact absurd h (by decide)
  · omega

/-- `TrimPort` takes off exactly the port that `FormatHostPort` added. -/
theorem trimPort_formatHostPort (host : Bytes) (port : Int) :
    trimPort (formatHostPort host port) = if 58 ∈ host then [91] ++ host ++ [93] else host := by
  have hformat : formatHostPort host port =
      (if 58 ∈ host then [91] ++ host ++ [93] else host) ++ 58 :: ascii (toString port) := by
    rw [formatHostPort]
    by_cases hv6 : 58 ∈ host
    · rw [List.contains_iff_mem.2 hv6, if_pos hv6, List.append_assoc]
      rfl
    · rw [Bool.eq_false_iff.2 fun h => hv6 (List.contains_iff_mem.1 h), if_neg hv6]
      show host ++ [] ++ ascii ":" ++ ascii (toString port) = _
      rw [List.append_nil, List.append_assoc]
      rfl
  rw [hformat, trimPort_append_cons _ (notMem_decimal port (by decide))
    (notMem_decimal port (by decide))]

/-! ## Addresses -/

def IsDigit (c : UInt8) : Prop :=
  48 ≤ c ∧ c ≤ 57

instance (c : UInt8) : Decidable (IsDigit c) :=
  inferInstanceAs (Decidable (_ ∧ _))

/-- The value of decimal digits. -/
def decimalValue (digits : Bytes) : Nat :=
  digits.foldl (fun value c => value * 10 + (c.toNat - 48)) 0

/-- A decimal number between 0 and 255. -/
def IsOctet (group : Bytes) : Prop :=
  group ≠ [] ∧ (∀ c ∈ group, IsDigit c) ∧ decimalValue group ≤ 255

instance (group : Bytes) : Decidable (IsOctet group) :=
  inferInstanceAs (Decidable (_ ∧ _))

/-- Four decimal numbers between 0 and 255, joined by three dots. -/
def IsIPv4 (host : Bytes) : Prop :=
  ∃ a b c d, host = a ++ 46 :: b ++ 46 :: c ++ 46 :: d ∧
    IsOctet a ∧ IsOctet b ∧ IsOctet c ∧ IsOctet d

/-- The host is digits and three dots, and between the dots there is nothing somewhere, or a number
above 255. -/
def IsLoose (host : Bytes) : Prop :=
  (host.splitOn 46).length = 4 ∧ (∀ group ∈ host.splitOn 46, ∀ c ∈ group, IsDigit c) ∧
    ∃ group ∈ host.splitOn 46, group = [] ∨ 255 < decimalValue group

/-- The names that need no address. -/
def IsLocalName (name : Bytes) : Prop :=
  name.map toLower = ascii "localhost" ∨ name.map toLower = ascii "localhost6"

/-- A local name is in front of the first NUL. -/
def IsCutOff (host : Bytes) : Prop :=
  0 ∈ host ∧ IsLocalName (host.takeWhile (· ≠ 0))

/-- The check of the literal follows the grammar, and the check of the host with it. -/
structure ExactHosts (host hostWithPort : Bytes) : Prop where
  literal : host.head? ≠ some 91 → (isIPAddress host = true ↔ IsIPv4 host)
  allowed : isAllowedHost hostWithPort = true → (trimPort hostWithPort).head? ≠ some 91 →
    trimPort hostWithPort = [] ∨ IsLocalName (trimPort hostWithPort) ∨
      IsIPv4 (trimPort hostWithPort)

/-! ### The literal -/

/-- What the loop of `IsIPAddress` accepts, by its groups. -/
theorem isIPAddressLoop_iff (host : Bytes) (quads : Nat) :
    isIPAddressLoop quads host = true ↔ quads + (host.splitOn 46).length = 4 ∧
      ∀ group ∈ host.splitOn 46, ∀ c ∈ group, IsDigit c := by
  induction host generalizing quads with
  | nil => simp [isIPAddressLoop]
  | cons c host ih =>
      rw [isIPAddressLoop, List.splitOn_cons_eq_if_modifyHead]
      by_cases hdot : c = 46
      · rw [if_pos hdot, if_pos (beq_iff_eq.2 hdot), ih, List.length_cons, List.forall_mem_cons]
        refine and_congr ?_ (and_iff_right nofun).symm
        omega
      · rw [if_neg hdot, if_neg fun h => hdot (beq_iff_eq.1 h)]
        obtain ⟨group, groups, hgroups⟩ := List.exists_cons_of_ne_nil (List.splitOn_ne_nil 46 host)
        rw [hgroups] at ih ⊢
        rw [List.modifyHead_cons, List.length_cons, List.forall_mem_cons, List.forall_mem_cons]
        by_cases hdigit : 48 ≤ c ∧ c ≤ 57
        · rw [if_pos hdigit, ih, List.length_cons, List.forall_mem_cons]
          have hc : IsDigit c := hdigit
          simp only [hc, true_and]
        · rw [if_neg hdigit]
          exact iff_of_false nofun fun h => hdigit h.2.1.1

theorem notMem_of_digits {group : Bytes} (h : ∀ c ∈ group, IsDigit c) : 46 ∉ group :=
  fun hmem => absurd (h 46 hmem) (by decide)

/-- The groups of an address are its numbers. -/
theorem isIPv4_iff (host : Bytes) :
    IsIPv4 host ↔ (host.splitOn 46).length = 4 ∧ ∀ group ∈ host.splitOn 46, IsOctet group := by
  constructor
  · rintro ⟨a, b, c, d, rfl, ha, hb, hc, hd⟩
    have hsplit : (a ++ 46 :: b ++ 46 :: c ++ 46 :: d).splitOn 46 = [a, b, c, d] := by
      rw [List.append_assoc, List.append_assoc, List.cons_append, List.cons_append,
        List.splitOn_append_cons_self_of_not_mem (notMem_of_digits ha.2.1),
        List.splitOn_append_cons_self_of_not_mem (notMem_of_digits hb.2.1),
        List.splitOn_append_cons_self_of_not_mem (notMem_of_digits hc.2.1),
        List.splitOn_eq_singleton (notMem_of_digits hd.2.1)]
    rw [hsplit]
    refine ⟨rfl, ?_⟩
    simp only [List.forall_mem_cons, List.not_mem_nil, false_imp_iff, implies_true, and_true]
    exact ⟨ha, hb, hc, hd⟩
  · rintro ⟨hlength, hgroups⟩
    have hjoin : List.intercalate [46] (host.splitOn 46) = host := List.intercalate_splitOn 46
    match hsplit : host.splitOn 46 with
    | [a, b, c, d] =>
        rw [hsplit] at hjoin hgroups
        refine ⟨a, b, c, d, ?_, ?_⟩
        · rw [← hjoin]
          simp
        · exact ⟨hgroups a (by simp), hgroups b (by simp), hgroups c (by simp), hgroups d (by simp)⟩
    | [] => simp [hsplit] at hlength
    | [_] => simp [hsplit] at hlength
    | [_, _] => simp [hsplit] at hlength
    | [_, _, _] => simp [hsplit] at hlength
    | _ :: _ :: _ :: _ :: _ :: _ => simp [hsplit] at hlength

/-- What the loop accepts is an address, or digits and dots that are none. -/
theorem isIPAddressLoop_zero_iff (host : Bytes) :
    isIPAddressLoop 0 host = true ↔ IsIPv4 host ∨ IsLoose host := by
  rw [isIPAddressLoop_iff, isIPv4_iff, IsLoose, Nat.zero_add, ← and_or_left]
  refine and_congr_right fun _ => ?_
  constructor
  · intro hdigits
    by_cases hall : ∀ group ∈ host.splitOn 46, IsOctet group
    · exact Or.inl hall
    · push Not at hall
      obtain ⟨group, hmem, hnot⟩ := hall
      refine Or.inr ⟨hdigits, group, hmem, ?_⟩
      by_contra hfits
      rw [not_or, Nat.not_lt] at hfits
      exact hnot ⟨hfits.1, hdigits group hmem, hfits.2⟩
  · rintro (hoctets | hloose)
    · exact fun group hmem => (hoctets group hmem).2.1
    · exact hloose.1

theorem IsLoose.not_isIPv4 {host : Bytes} (h : IsLoose host) : ¬ IsIPv4 host := by
  obtain ⟨_, _, group, hmem, hbad⟩ := h
  intro hipv4
  obtain ⟨hne, _, hvalue⟩ := ((isIPv4_iff host).1 hipv4).2 group hmem
  rcases hbad with hempty | hlarge
  · exact hne hempty
  · omega

/-! ### The host -/

/-- A C string is compared up to its first NUL. -/
theorem stringEqualNoCase_iff {b : Bytes} (hb : ∀ c ∈ b, c ≠ 0) (a : Bytes) :
    stringEqualNoCase a b = true ↔ (a.takeWhile (· ≠ 0)).map toLower = b.map toLower := by
  induction b generalizing a with
  | nil =>
      cases a with
      | nil => exact iff_of_true rfl rfl
      | cons x a =>
          by_cases hx : x = 0
          · subst hx
            exact iff_of_true rfl rfl
          · simp [stringEqualNoCase, hx]
  | cons y b ih =>
      obtain ⟨hy, hrest⟩ := List.forall_mem_cons.1 hb
      cases a with
      | nil => simp [stringEqualNoCase, hy]
      | cons x a =>
          by_cases hx : x = 0
          · simp [stringEqualNoCase, hx, hy]
          · rw [stringEqualNoCase, if_neg hx, if_neg hy,
              List.takeWhile_cons_of_pos (by simpa using hx), List.map_cons, List.map_cons,
              List.cons.injEq]
            by_cases heq : toLower x = toLower y
            · rw [if_pos heq, ih hrest]
              exact (and_iff_right heq).symm
            · rw [if_neg heq]
              exact iff_of_false nofun fun h => heq h.1

theorem isLocalName_takeWhile_iff (host : Bytes) :
    (stringEqualNoCase host (ascii "localhost") || stringEqualNoCase host (ascii "localhost6")) =
      true ↔ IsLocalName (host.takeWhile (· ≠ 0)) := by
  rw [Bool.or_eq_true, stringEqualNoCase_iff (by decide +kernel),
    stringEqualNoCase_iff (by decide +kernel)]
  rfl

theorem takeWhile_of_notMem {host : Bytes} (h : 0 ∉ host) : host.takeWhile (· ≠ 0) = host := by
  rw [List.takeWhile_eq_self_iff]
  intro c hc
  rw [decide_eq_true_eq]
  rintro rfl
  exact h hc

/-- No local name has a NUL. -/
theorem IsLocalName.notMem {name : Bytes} (h : IsLocalName name) : 0 ∉ name := by
  intro hmem
  have hlower : (0 : UInt8) ∈ name.map toLower := List.mem_map.2 ⟨0, hmem, rfl⟩
  rcases h with h | h
  · rw [h] at hlower
    exact absurd hlower (by decide +kernel)
  · rw [h] at hlower
    exact absurd hlower (by decide +kernel)

/-- A local name begins with its letter. -/
theorem IsLocalName.head {name : Bytes} (h : IsLocalName name) :
    ∃ c, name.head? = some c ∧ toLower c = 108 := by
  cases name with
  | nil => exact absurd h (by unfold IsLocalName; decide +kernel)
  | cons c name =>
      refine ⟨c, rfl, ?_⟩
      rcases h with h | h
      · exact (List.cons.inj h).1
      · exact (List.cons.inj h).1

/-- What the loop accepts is made of digits and dots. -/
theorem digit_or_dot {host : Bytes} {quads : Nat} (h : isIPAddressLoop quads host = true) :
    ∀ c ∈ host, IsDigit c ∨ c = 46 := by
  induction host generalizing quads with
  | nil => nofun
  | cons c host ih =>
      rw [isIPAddressLoop] at h
      rw [List.forall_mem_cons]
      by_cases hdot : c = 46
      · rw [if_pos hdot] at h
        exact ⟨Or.inr hdot, ih h⟩
      · rw [if_neg hdot] at h
        by_cases hdigit : 48 ≤ c ∧ c ≤ 57
        · rw [if_pos hdigit] at h
          exact ⟨Or.inl hdigit, ih h⟩
        · rw [if_neg hdigit] at h
          cases h

/-- Outside of brackets only the loop decides. -/
theorem isIPAddress_of_head {host : Bytes} (h : host.head? ≠ some 91) :
    isIPAddress host = isIPAddressLoop 0 host :=
  if_neg fun hbracketed => h hbracketed.2.1

theorem head_of_loop {host : Bytes} (h : isIPAddressLoop 0 host = true) :
    host.head? ≠ some 91 := by
  intro hhead
  rcases digit_or_dot h 91 (List.mem_of_mem_head? hhead) with hdigit | hdot
  · exact absurd hdigit (by decide)
  · cases hdot

/-- The letter of a local name is no digit and no dot. -/
theorem IsLocalName.not_loop {name : Bytes} (h : IsLocalName name) :
    ¬ isIPAddressLoop 0 name = true := by
  obtain ⟨c, hhead, hletter⟩ := h.head
  intro hloop
  rcases digit_or_dot hloop c (List.mem_of_mem_head? hhead) with hdigit | rfl
  · have hlow : c ≤ 57 := hdigit.2
    rw [toLower, if_neg fun hupper => absurd (UInt8.le_trans hupper.1 hlow) (by decide)] at hletter
    rw [hletter] at hlow
    exact absurd hlow (by decide)
  · exact absurd hletter (by decide)

theorem isAllowedHost_iff (hostWithPort : Bytes) :
    isAllowedHost hostWithPort = true ↔ trimPort hostWithPort = [] ∨
      isIPAddress (trimPort hostWithPort) = true ∨
        IsLocalName ((trimPort hostWithPort).takeWhile (· ≠ 0)) := by
  rw [isAllowedHost, Bool.or_assoc, Bool.or_eq_true, Bool.or_eq_true, List.isEmpty_iff,
    isLocalName_takeWhile_iff, or_assoc]

/-- The literals that are no addresses are the loose ones. -/
theorem literal_iff (host : Bytes) :
    (host.head? ≠ some 91 → (isIPAddress host = true ↔ IsIPv4 host)) ↔ ¬ IsLoose host := by
  constructor
  · intro h hloose
    have hloop := (isIPAddressLoop_zero_iff host).2 (Or.inr hloose)
    have hhead := head_of_loop hloop
    exact hloose.not_isIPv4 ((h hhead).1 ((isIPAddress_of_head hhead).trans hloop))
  · intro hnot hhead
    rw [isIPAddress_of_head hhead, isIPAddressLoop_zero_iff]
    exact or_iff_left hnot

/-- The hosts let through without being local or an address are loose, or cut off at a NUL. -/
theorem allowed_iff (hostWithPort : Bytes) :
    (isAllowedHost hostWithPort = true → (trimPort hostWithPort).head? ≠ some 91 →
      trimPort hostWithPort = [] ∨ IsLocalName (trimPort hostWithPort) ∨
        IsIPv4 (trimPort hostWithPort)) ↔
    ¬ IsLoose (trimPort hostWithPort) ∧ ¬ IsCutOff (trimPort hostWithPort) := by
  rw [isAllowedHost_iff]
  generalize trimPort hostWithPort = host
  constructor
  · intro h
    constructor
    · intro hloose
      have hloop := (isIPAddressLoop_zero_iff host).2 (Or.inr hloose)
      have hhead := head_of_loop hloop
      have hip : isIPAddress host = true := (isIPAddress_of_head hhead).trans hloop
      rcases h (Or.inr (Or.inl hip)) hhead with rfl | hlocal | hipv4
      · exact absurd hloop (by decide)
      · exact hlocal.not_loop hloop
      · exact hloose.not_isIPv4 hipv4
    · rintro ⟨hnul, hlocal⟩
      obtain ⟨c, hc, hletter⟩ := hlocal.head
      obtain ⟨rest, hrest⟩ := host.takeWhile_prefix (· ≠ 0)
      have hhead : host.head? = some c := by
        rw [← hrest, List.head?_append, hc, Option.some_or]
      have hbracket : host.head? ≠ some 91 := by
        rw [hhead]
        rintro heq
        obtain rfl := Option.some.inj heq
        exact absurd hletter (by decide)
      rcases h (Or.inr (Or.inr hlocal)) hbracket with rfl | hname | hipv4
      · cases hnul
      · exact hname.notMem hnul
      · have hloop := (isIPAddressLoop_zero_iff host).2 (Or.inl hipv4)
        rcases digit_or_dot hloop 0 hnul with hdigit | hdot
        · exact absurd hdigit (by decide)
        · cases hdot
  · rintro ⟨hloose, hcut⟩ (hempty | hip | hlocal) hhead
    · exact Or.inl hempty
    · rw [isIPAddress_of_head hhead, isIPAddressLoop_zero_iff] at hip
      exact Or.inr (Or.inr (hip.resolve_right hloose))
    · by_cases hnul : 0 ∈ host
      · exact absurd ⟨hnul, hlocal⟩ hcut
      · rw [takeWhile_of_notMem hnul] at hlocal
        exact Or.inr (Or.inl hlocal)

/-- For every literal and every host with a port, the checks follow the grammar exactly if both are
digits and dots only as addresses, and no local name is followed by a NUL. -/
theorem exactHosts_iff (host hostWithPort : Bytes) :
    ExactHosts host hostWithPort ↔ ¬ IsLoose host ∧ ¬ IsLoose (trimPort hostWithPort) ∧
      ¬ IsCutOff (trimPort hostWithPort) := by
  rw [← literal_iff, ← allowed_iff]
  exact ⟨fun h => ⟨h.literal, h.allowed⟩, fun h => ⟨h.1, h.2⟩⟩

/-- A name in the form of an address, which is none. -/
theorem not_exactHosts_largeOctet : ¬ ∀ host hostWithPort, ExactHosts host hostWithPort := by
  intro h
  have hexact := (h (ascii "10.0.2.555") (ascii "10.0.2.555:9229")).literal (by decide +kernel)
  have hipv4 := hexact.1 (by decide +kernel)
  rw [isIPv4_iff] at hipv4
  exact absurd hipv4.2 (by decide +kernel)

end Inspector
end V8JsiRuntime
