import Mathlib.Data.List.DropRight
import V8JsiRuntime.Inspector.FrameFormat
import V8JsiRuntime.Inspector.LlhttpNames

/-!
# LlhttpValues — the values of headers

A value is reported as sent, without the blanks in front of it.  The value of `Connection` is read as
a list of options on the way, and `Upgrade` only has to be there.
-/

namespace V8JsiRuntime
namespace Inspector
namespace Llhttp

open Lib Lib.ParserGraph

/-! ## Options of a connection -/

/-- An option without the blanks around it, in lower case. -/
def optionName (part : Bytes) : Bytes :=
  lower ((part.dropWhile (· == 32)).rdropWhile (· == 32))

/-- The options that the parser cares for, with their flags. -/
def options : List (Bytes × UInt8) :=
  [(ascii "close", 2), (ascii "keep-alive", 1), (ascii "upgrade", 4)]

def optionFlag (part : Bytes) : UInt8 :=
  (options.lookup (optionName part)).getD 0

/-- The flags of all options. -/
def connectionFlags (value : Bytes) : UInt8 :=
  (value.splitOn 44).foldl (fun flags part => flags ||| optionFlag part) 0

def lastOption (value : Bytes) : Bytes :=
  (value.splitOn 44).getLastD []

/-- What the end of a line, or of an option, makes of `header_state`. -/
def pendingFlag (state : UInt8) : UInt8 :=
  if state = 5 then 1 else if state = 6 then 2 else if state = 7 then 4 else if state = 8 then 8
  else 0

/-! ### The flag of an option -/

section Options

variable {part word : Bytes} {flag : UInt8}

theorem optionName_prefix (part : Bytes) :
    optionName part <+: lower (part.dropWhile (· == 32)) :=
  (List.rdropWhile_prefix (· == 32) (part.dropWhile (· == 32))).map toLowerUnsafe

theorem optionFlag_of_name (hword : (word, flag) ∈ options) (h : optionName part = word) :
    optionFlag part = flag := by
  have hall : ∀ entry ∈ options, (options.lookup entry.1).getD 0 = entry.2 := by decide
  rw [optionFlag, h]
  exact hall _ hword

theorem optionFlag_of_none (h : ∀ word ∈ options.map Prod.fst, optionName part ≠ word) :
    optionFlag part = 0 := by
  have hnone : options.lookup (optionName part) = none := by
    rw [List.lookup_eq_none_iff]
    intro entry hentry
    exact bne_iff_ne.2 (h entry.1 (List.mem_map_of_mem hentry))
  rw [optionFlag, hnone]
  rfl

/-- An option that does not begin with a word. -/
theorem optionFlag_of_not_prefix (h : ∀ word ∈ options.map Prod.fst,
    ¬ word <+: lower (part.dropWhile (· == 32))) : optionFlag part = 0 :=
  optionFlag_of_none fun word hword heq => h word hword (heq ▸ optionName_prefix part)

/-- The words differ in their first letters. -/
theorem word_unique {word' text : Bytes} (hword : word ∈ options.map Prod.fst)
    (hword' : word' ∈ options.map Prod.fst) (h : word <+: text) (h' : word' <+: text) :
    word = word' := by
  have hall : ∀ word ∈ options.map Prod.fst, ∀ word' ∈ options.map Prod.fst,
      word.head? = word'.head? → word = word' := by decide
  have hne : ∀ word ∈ options.map Prod.fst, word ≠ [] := by decide
  have hhead {word : Bytes} (hne : word ≠ []) (h : word <+: text) : word.head? = text.head? := by
    obtain ⟨rest, rfl⟩ := h
    exact (List.head?_append_of_ne_nil _ hne).symm
  exact hall word hword word' hword'
    ((hhead (hne word hword) h).trans (hhead (hne word' hword') h').symm)

theorem rdropWhile_append {α : Type} {p : α → Bool} {front blanks : List α}
    (hblanks : ∀ x ∈ blanks, p x = true) : (front ++ blanks).rdropWhile p = front.rdropWhile p := by
  rw [List.rdropWhile, List.reverse_append, List.dropWhile_append_of_pos, List.rdropWhile]
  exact fun x hx => hblanks x (List.mem_reverse.1 hx)

/-- A word and what stands behind it: it is the name of the option if that is blank. -/
theorem optionFlag_of_word {front rest : Bytes} (hword : (word, flag) ∈ options)
    (hfront : lower front = word) (hpart : part.dropWhile (· == 32) = front ++ rest) :
    optionFlag part = if rest.dropWhile (· == 32) = [] then flag else 0 := by
  have hmem := List.mem_map_of_mem (f := Prod.fst) hword
  split
  · rename_i hblank
    refine optionFlag_of_name hword ?_
    have hlast : ∀ word ∈ options.map Prod.fst, word.getLast? ≠ some 32 := by decide
    rw [optionName, hpart, rdropWhile_append (List.dropWhile_eq_nil_iff.1 hblank), ← hfront]
    congr 1
    refine List.rdropWhile_eq_self_iff.2 fun hne hspace => hlast word hmem ?_
    rw [← hfront, lower, List.getLast?_map, List.getLast?_eq_some_getLast hne,
      beq_iff_eq.1 hspace]
    rfl
  · rename_i hmore
    refine optionFlag_of_none fun word' hword' heq => hmore ?_
    -- the name would be the word, and only blanks behind it
    have hbody : lower (part.dropWhile (· == 32)) = word ++ lower rest := by
      rw [hpart, lower, List.map_append, ← lower, hfront, ← lower]
    have hsame := word_unique hword' hmem (heq ▸ optionName_prefix part) ⟨_, hbody.symm⟩
    have hsplit : (front ++ rest).rdropWhile (· == 32) ++ (front ++ rest).rtakeWhile (· == 32) =
        front ++ rest := List.rdropWhile_append_rtakeWhile
    have hlength : ((front ++ rest).rdropWhile (· == 32)).length = front.length := by
      have hname := congrArg List.length (heq.trans (hsame.trans hfront.symm))
      rwa [optionName, hpart, lower, lower, List.length_map, List.length_map] at hname
    obtain ⟨_, htail⟩ := List.append_inj hsplit hlength
    rw [List.dropWhile_eq_nil_iff, ← htail]
    exact fun byte hbyte => List.mem_rtakeWhile_imp (p := (· == (32 : UInt8))) hbyte

theorem connectionFlags_of_not_mem (h : 44 ∉ part) : connectionFlags part = optionFlag part := by
  rw [connectionFlags, List.splitOn_eq_singleton h, List.foldl_cons, List.foldl_nil, UInt8.zero_or]

theorem connectionFlags_append (h : 44 ∉ part) (rest : Bytes) :
    connectionFlags (part ++ 44 :: rest) = optionFlag part ||| connectionFlags rest := by
  have hfold (parts : List Bytes) (init : UInt8) :
      parts.foldl (fun flags part => flags ||| optionFlag part) init =
        init ||| parts.foldl (fun flags part => flags ||| optionFlag part) 0 := by
    induction parts generalizing init with
    | nil => rw [List.foldl_nil, List.foldl_nil, UInt8.or_zero]
    | cons part parts ih =>
        rw [List.foldl_cons, List.foldl_cons, ih, ih (0 ||| _), UInt8.zero_or, UInt8.or_assoc]
  rw [connectionFlags, List.splitOn_append_cons_self_of_not_mem h, List.foldl_cons, hfold,
    UInt8.zero_or, ← connectionFlags]

theorem lastOption_of_not_mem (h : 44 ∉ part) : lastOption part = part := by
  rw [lastOption, List.splitOn_eq_singleton h]
  rfl

theorem lastOption_append (h : 44 ∉ part) (rest : Bytes) :
    lastOption (part ++ 44 :: rest) = lastOption rest := by
  obtain ⟨first, others, hsplit⟩ := List.exists_cons_of_ne_nil (List.splitOn_ne_nil 44 rest)
  rw [lastOption, List.splitOn_append_cons_self_of_not_mem h, lastOption, hsplit]
  simp [List.getLastD_eq_getLast?]

end Options

/-! ## Bytes of a value -/

section Bytes

variable {byte : UInt8}

theorem ne_of_value (h : isValueByte byte = true) {other : UInt8}
    (hother : isValueByte other = false) : byte ≠ other := by
  rintro rfl
  exact Bool.false_ne_true (hother.symm.trans h)

theorem is_of_ne {c : Char} (h : byte ≠ c.toUInt8) : is c byte = false :=
  beq_eq_false_iff_ne.2 h

/-- All bytes but the comma. -/
theorem isConnectionByte_of_value (h : isValueByte byte = true) (hcomma : byte ≠ 44) :
    isConnectionByte byte = true := by
  have hall : ∀ byte, isValueByte byte = true → byte ≠ 44 → isConnectionByte byte = true :=
    forall_byte (by decide +kernel)
  exact hall byte h hcomma

theorem isLower_tab (byte : UInt8) : isLower '\t' byte = false := by
  have hall : ∀ byte, isLower '\t' byte = false := forall_byte (by decide +kernel)
  exact hall byte

theorem isLower_blank (h : isConnectionByte byte = true) (hblank : byte ≠ 32) :
    isLower ' ' byte = false := by
  have hall : ∀ byte, isConnectionByte byte = true → byte ≠ 32 → isLower ' ' byte = false :=
    forall_byte (by decide +kernel)
  exact hall byte h hblank

end Bytes

/-! ## Ways through a value -/

section Value

variable {value : Bytes} {s : Store}

/-- Inside of the value, with the end of the line behind it as the last bytes of the chunk. -/
def valueConfig (label : Label) (s : Store) (p : Nat) : Config Label Store Span :=
  ⟨label, 0, some (.onHeaderValue, 0), s, p⟩

def valueEnd (value : Bytes) (s : Store) : Config Label Store Span :=
  ⟨.headerValueLws, 0, none, s, value.length + 2⟩

theorem drop_crlf {p : Nat} (hp : p ≤ value.length) :
    (value ++ [13, 10]).drop p = value.drop p ++ [13, 10] :=
  List.drop_append_of_le_length hp

theorem drop_value : (value ++ [13, 10]).drop value.length = [13, 10] := by
  simp

theorem drop_value_succ : (value ++ [13, 10]).drop (value.length + 1) = [10] := by
  rw [← List.drop_drop, drop_value]
  rfl

theorem slice_value : slice (value ++ [13, 10]) 0 value.length = value := by
  simp [slice]

/-- The end of the line. -/
theorem reaches_crlf (value : Bytes) (s : Store) :
    Reaches graph (value ++ [13, 10]) (valueConfig .headerValueOtherwise s value.length)
      [.fragment .onHeaderValue value] (valueEnd value s) := by
  have hgoes : Reaches graph (value ++ [13, 10])
      (valueConfig .headerValueOtherwise s value.length) []
      (valueConfig .spanEndOnHeaderValue2 s value.length) :=
    .goto rfl drop_value rfl
  have hspan := Reaches.spanEnd_take (g := graph)
    (c := valueConfig .spanEndOnHeaderValue2 s value.length) rfl rfl drop_value
  rw [show (valueConfig .spanEndOnHeaderValue2 s value.length).p = value.length from rfl,
    slice_value] at hspan
  have hlast : Reaches graph (value ++ [13, 10])
      ⟨.headerValueAlmostDone, 0, none, s, value.length + 1⟩ [] (valueEnd value s) :=
    .advance rfl drop_value_succ rfl
  exact hgoes.silent_trans (hspan.trans hlast)

/-- The rest of a value that the parser does not look into. -/
theorem reaches_value (hvalue : ∀ byte ∈ value, isValueByte byte = true) {p : Nat}
    (hp : p ≤ value.length) :
    Reaches graph (value ++ [13, 10]) (valueConfig .headerValue s p)
      [.fragment .onHeaderValue value] (valueEnd value s) := by
  have hloop := Reaches.loop (g := graph) (c := valueConfig .headerValue s p) rfl (drop_crlf hp)
    fun byte hbyte => choose_cons_of_pos (hvalue byte (List.mem_of_mem_drop hbyte))
  have hend : p + (value.drop p).length = value.length := by
    rw [List.length_drop]
    omega
  change Reaches graph (value ++ [13, 10]) _ []
    (valueConfig .headerValue s (p + (value.drop p).length)) at hloop
  rw [hend] at hloop
  have hgoes : Reaches graph (value ++ [13, 10]) (valueConfig .headerValue s value.length) []
      (valueConfig .headerValueOtherwise s value.length) :=
    .goto rfl drop_value rfl
  exact hloop.silent_trans (hgoes.silent_trans (reaches_crlf value s))

/-! ### Options -/

/-- A flag is set, and the next option is to come. -/
theorem reaches_update {data : Bytes} {c : Config Label Store Span} {update target : Label}
    {bits : UInt8} (hor : graph.node c.label = .invoke (setFlags bits) [] update)
    (hupdate : graph.node update = .invoke (setHeaderState 1) [] target) :
    Reaches graph data c [] { c with
      label := target
      store := { c.store with flags := c.store.flags ||| bits, headerState := 1 } } := by
  have hflags : Reaches graph data c [] { c with
      label := update
      store := { c.store with flags := c.store.flags ||| bits } } := .invoke hor rfl rfl
  exact hflags.silent_trans (.invoke hupdate rfl rfl)

section Option

variable {p : Nat} {part after : Bytes}

/-- What stands behind an option. -/
def Closes (after : Bytes) : Prop :=
  after = [13, 10] ∨ ∃ rest, after = 44 :: rest

theorem Closes.head (h : Closes after) : ∃ first rest, after = first :: rest ∧
    (first = 13 ∧ rest = [10] ∨ first = 44) := by
  rcases h with rfl | ⟨rest, rfl⟩
  · exact ⟨13, [10], rfl, Or.inl ⟨rfl, rfl⟩⟩
  · exact ⟨44, rest, rfl, Or.inr rfl⟩

/-- Where an option ends, and what is known of it: it is none of the words, or the one that
`header_state` stands for. -/
def OptionRead (data : Bytes) (label : Label) (s : Store) (p : Nat) (part rest : Bytes) : Prop :=
  ∃ label' state, Reaches graph data (valueConfig label s p) []
      (valueConfig label' { s with headerState := state } (p + rest.length)) ∧
    (label' = .headerValueConnectionToken ∧ pendingFlag state = 0 ∧ optionFlag part = 0 ∨
      label' = .headerValueConnectionWs ∧ optionFlag part = pendingFlag state ∧
        (state = 5 ∨ state = 6 ∨ state = 7))

variable {data rest : Bytes}

/-- The rest of an option that is none of the words. -/
theorem optionRead_token (hstate : pendingFlag s.headerState = 0)
    (hdrop : data.drop p = rest ++ after)
    (hrest : ∀ byte ∈ rest, isConnectionByte byte = true) (hnone : optionFlag part = 0) :
    OptionRead data .headerValueConnectionToken s p part rest := by
  have hloop := Reaches.loop (g := graph) (c := valueConfig .headerValueConnectionToken s p) rfl
    hdrop fun byte hbyte => choose_cons_of_pos (hrest byte hbyte)
  exact ⟨_, s.headerState, hloop, Or.inl ⟨rfl, hstate, hnone⟩⟩

theorem OptionRead.of_reaches {label label' : Label} {s' : Store} {p' : Nat} {back : Bytes}
    (h : Reaches graph data (valueConfig label s p) [] (valueConfig label' s' p'))
    (hstore : ∃ state, s' = { s with headerState := state })
    (hread : OptionRead data label' s' p' part back)
    (hlength : p' + back.length = p + rest.length) : OptionRead data label s p part rest := by
  obtain ⟨state, rfl⟩ := hstore
  obtain ⟨last, state', hlast, hcases⟩ := hread
  refine ⟨last, state', ?_, hcases⟩
  rw [← hlength]
  exact h.silent_trans hlast

/-- Behind a word: there may be blanks, or it is none of the words after all. -/
theorem optionRead_ws (hstate : s.headerState = 5 ∨ s.headerState = 6 ∨ s.headerState = 7)
    (hdrop : data.drop p = rest ++ after)
    (hrest : ∀ byte ∈ rest, isConnectionByte byte = true)
    (hflag : optionFlag part =
      if rest.dropWhile (· == 32) = [] then pendingFlag s.headerState else 0) :
    OptionRead data .headerValueConnectionWs s p part rest := by
  obtain ⟨blanks, back, rfl, hblanks, hback⟩ : ∃ blanks back, rest = blanks ++ back ∧
      (∀ byte ∈ blanks, byte = 32) ∧ rest.dropWhile (· == 32) = back := by
    refine ⟨_, _, (List.takeWhile_append_dropWhile (p := (· == 32))).symm, fun byte hbyte => ?_, rfl⟩
    exact beq_iff_eq.1 (List.mem_takeWhile_imp hbyte :)
  rw [List.append_assoc] at hdrop
  have hloop : Reaches graph data (valueConfig .headerValueConnectionWs s p) []
      (valueConfig .headerValueConnectionWs s (p + blanks.length)) :=
    .loop rfl hdrop fun byte hbyte => by rw [hblanks byte hbyte]; rfl
  suffices hread : OptionRead data .headerValueConnectionWs s (p + blanks.length) part back from
    .of_reaches hloop ⟨s.headerState, rfl⟩ hread (by rw [List.length_append, Nat.add_assoc])
  rw [hback] at hflag
  cases back with
  | nil => exact ⟨_, s.headerState, .refl _, Or.inr ⟨rfl, hflag, hstate⟩⟩
  | cons byte back =>
      rw [if_neg (List.cons_ne_nil _ _)] at hflag
      have hdrop' := drop_of_drop hdrop
      have hconnection : ∀ other ∈ byte :: back, isConnectionByte other = true :=
        fun other hother => hrest other (List.mem_append_right _ hother)
      have hne (other : UInt8) (hother : isConnectionByte other = false) : byte ≠ other := by
        rintro rfl
        exact Bool.false_ne_true (hother.symm.trans (hconnection byte List.mem_cons_self))
      have hblank : byte ≠ 32 := by
        rintro rfl
        have hhead := List.head?_dropWhile_not (· == (32 : UInt8)) (blanks ++ 32 :: back)
        rw [hback] at hhead
        cases hhead
      have hgoes : Reaches graph data (valueConfig .headerValueConnectionWs s (p + blanks.length))
          [] (valueConfig .invokeUpdateHeaderState4 s (p + blanks.length)) := by
        refine .goto rfl hdrop' ?_
        rw [choose_cons_of_neg (is_of_ne (hne 10 rfl)), choose_cons_of_neg (is_of_ne (hne 13 rfl)),
          choose_cons_of_neg (is_of_ne hblank), choose_cons_of_neg (is_of_ne (hne 44 rfl)),
          choose_nil]
      have hcode : Reaches graph data
          (valueConfig .invokeUpdateHeaderState4 s (p + blanks.length)) []
          (valueConfig .headerValueConnectionToken { s with headerState := 0 }
            (p + blanks.length)) :=
        .invoke rfl rfl rfl
      have htoken : OptionRead data .headerValueConnectionToken { s with headerState := 0 }
          (p + blanks.length) part (byte :: back) :=
        optionRead_token rfl hdrop' hconnection hflag
      exact .of_reaches (hgoes.silent_trans hcode) ⟨0, rfl⟩ htoken rfl

/-- A word that may be there: the parser compares what follows the first letter. -/
theorem optionRead_word {label found : Label} {blob : Bytes} {byte state : UInt8}
    (hnode : graph.node label = .sequence toLowerUnsafe blob found .headerValueConnectionToken)
    (hfound : ∀ q, Reaches graph data (valueConfig found s q) []
      (valueConfig .headerValueConnectionWs { s with headerState := state } q))
    (hblob : blob ≠ []) (hstate : state = 5 ∨ state = 6 ∨ state = 7)
    (hs : pendingFlag s.headerState = 0)
    (hword : (toLowerUnsafe byte :: blob, pendingFlag state) ∈ options)
    (hpart : part.dropWhile (· == 32) = byte :: rest) (hdrop : data.drop p = rest ++ after)
    (hrest : ∀ byte ∈ rest, isConnectionByte byte = true)
    (hforeign : ∃ byte ∈ after, toLowerUnsafe byte ∉ blob)
    (hend : ∀ first rest', after = first :: rest' →
      ¬ lower rest ++ [toLowerUnsafe first] <+: blob) :
    OptionRead data label s p part rest := by
  obtain ⟨first, rest', hafter⟩ : ∃ first rest', after = first :: rest' := by
    obtain ⟨byte, hmem, _⟩ := hforeign
    exact List.exists_cons_of_ne_nil (List.ne_nil_of_mem hmem)
  have hnot := hend first rest' hafter
  have hlong : lower rest ++ [toLowerUnsafe first] <+: lower (rest ++ after) := by
    rw [hafter, lower, lower, List.map_append, List.map_cons]
    exact ⟨rest'.map toLowerUnsafe, by rw [List.append_assoc, List.singleton_append]⟩
  -- a prefix of the text that fits the word does not reach beyond the option
  have hshort {fits : Bytes} (hfits : fits <+: lower (rest ++ after)) (hin : fits <+: blob) :
      fits.length ≤ rest.length := by
    by_contra hgreater
    refine hnot ((List.prefix_of_prefix_length_le hlong hfits ?_).trans hin)
    rw [List.length_append, lower, List.length_map, List.length_singleton]
    omega
  by_cases hprefix : blob <+: lower rest
  · have htake : (rest.take blob.length).map toLowerUnsafe = blob := by
      obtain ⟨tail, htail⟩ := hprefix
      rw [List.map_take]
      change (lower rest).take blob.length = blob
      rw [← htail, List.take_left]
    have hlength : (rest.take blob.length).length = blob.length := by
      have heq := congrArg List.length htake
      rwa [List.length_map] at heq
    have hdrop' : data.drop p = rest.take blob.length ++ (rest.drop blob.length ++ after) := by
      rw [← List.append_assoc, List.take_append_drop, hdrop]
    have hreach : Reaches graph data (valueConfig label s p) []
        (valueConfig found s (p + (rest.take blob.length).length)) :=
      .word hnode rfl (fun hnil => hblob (by rw [← htake, hnil]; rfl)) hdrop' htake
    have hfront : lower (byte :: rest.take blob.length) = toLowerUnsafe byte :: blob := by
      rw [lower, List.map_cons, htake]
    have hflag := optionFlag_of_word hword hfront
      (by rw [hpart, List.cons_append, List.take_append_drop])
    refine .of_reaches (hreach.silent_trans (hfound _)) ⟨state, rfl⟩
      (optionRead_ws hstate (drop_of_drop hdrop')
        (fun other hother => hrest other (List.mem_of_mem_drop hother)) hflag) ?_
    rw [Nat.add_assoc, ← List.length_append, List.take_append_drop]
  · have hmap : (data.drop p).map toLowerUnsafe = lower (rest ++ after) := by rw [hdrop, lower]
    have hnone : ¬ blob <+: lower (rest ++ after) := by
      intro hin
      have hle := hshort hin List.prefix_rfl
      refine hprefix (List.prefix_of_prefix_length_le hin ?_ ?_)
      · rw [lower, lower, List.map_append]
        exact List.prefix_append _ _
      · rwa [lower, List.length_map]
    have hforeign' : ∃ other ∈ data.drop p, toLowerUnsafe other ∉ blob := by
      obtain ⟨other, hmem, hother⟩ := hforeign
      exact ⟨other, hdrop ▸ List.mem_append_right _ hmem, hother⟩
    obtain ⟨k, hk, hfits, hreach⟩ := Reaches.noWord (g := graph) (c := valueConfig label s p) hnode
      rfl hblob (hmap ▸ hnone) hforeign'
    change k < (data.drop p).length at hk
    have hle : k ≤ rest.length := by
      have htake : ((data.drop p).take k).map toLowerUnsafe <+: lower (rest ++ after) := by
        rw [← hmap, List.map_take]
        exact List.take_prefix _ _
      have hlength := hshort htake hfits
      rwa [List.length_map, List.length_take, Nat.min_eq_left hk.le] at hlength
    have hdrop' : data.drop (p + k) = rest.drop k ++ after := by
      rw [← List.drop_drop, hdrop, List.drop_append_of_le_length hle]
    have hzero : optionFlag part = 0 := by
      refine optionFlag_of_none fun word' hword' heq => hprefix ?_
      have hin := optionName_prefix part
      rw [heq, hpart, lower, List.map_cons] at hin
      have hheads : ∀ word ∈ options.map Prod.fst, ∀ word' ∈ options.map Prod.fst,
          word.head? = word'.head? → word = word' := by decide
      have hne : word' ≠ [] := by
        have hall : ∀ word ∈ options.map Prod.fst, word ≠ [] := by decide
        exact hall word' hword'
      obtain ⟨letter, others, rfl⟩ := List.exists_cons_of_ne_nil hne
      obtain ⟨rfl, hothers⟩ := List.cons_prefix_cons.1 hin
      have hsame := hheads _ hword' _ (List.mem_map_of_mem (f := Prod.fst) hword) rfl
      rw [(List.cons.inj hsame).2] at hothers
      exact hothers
    have hgoes : Reaches graph data (valueConfig label s p) []
        (valueConfig .headerValueConnectionToken s (p + k)) := hreach
    refine .of_reaches hgoes ⟨s.headerState, rfl⟩
      (optionRead_token hs hdrop' (fun other hother => hrest other (List.mem_of_mem_drop hother))
        hzero) ?_
    rw [List.length_drop, Nat.add_assoc, Nat.add_sub_cancel' hle]

theorem Closes.exists_foreign (h : Closes after) {blob : Bytes} (hcomma : 44 ∉ blob)
    (hstar : 42 ∉ blob) : ∃ byte ∈ after, toLowerUnsafe byte ∉ blob := by
  rcases h with rfl | ⟨rest, rfl⟩
  · exact ⟨10, by simp, hstar⟩
  · exact ⟨44, List.mem_cons_self, hcomma⟩

/-- The end of the option does not fit the word. -/
theorem Closes.not_prefix (h : Closes after) {blob text : Bytes} (hcomma : 44 ∉ blob)
    (hminus : after = [13, 10] → ¬ text ++ [45] <+: blob) (first : UInt8) (rest' : Bytes)
    (hafter : after = first :: rest') : ¬ text ++ [toLowerUnsafe first] <+: blob := by
  rcases h with rfl | ⟨rest, rfl⟩
  · obtain ⟨rfl, -⟩ := List.cons.inj hafter
    exact hminus rfl
  · obtain ⟨rfl, -⟩ := List.cons.inj hafter
    exact fun hin => hcomma (hin.subset (List.mem_append_right _ List.mem_cons_self))

/-- The minus is only in one place of the word. -/
theorem eq_eep {text : Bytes} (h : text ++ [45] <+: ascii "eep-alive") : text = ascii "eep" := by
  obtain ⟨rest, hrest⟩ := h
  have hlength := congrArg List.length hrest
  have hbyte : (ascii "eep-alive")[text.length]? = some 45 := by
    rw [← hrest, List.append_assoc, List.getElem?_append_right (Nat.le_refl _), Nat.sub_self]
    rfl
  have hthree : text.length = 3 := by
    have hall : ∀ n < 9, (ascii "eep-alive")[n]? = some 45 → n = 3 := by decide
    refine hall _ ?_ hbyte
    rw [List.length_append, List.length_append, List.length_singleton,
      show (ascii "eep-alive").length = 9 from rfl] at hlength
    omega
  have htake := congrArg (List.take 3) hrest
  rwa [List.append_assoc, ← hthree, List.take_left, hthree] at htake

/-- An option, from its first byte on. -/
theorem optionRead_body {byte : UInt8} (hs : pendingFlag s.headerState = 0)
    (hpart : part.dropWhile (· == 32) = byte :: rest)
    (hdrop : data.drop p = byte :: (rest ++ after))
    (hbyte : isConnectionByte byte = true) (hblank : byte ≠ 32)
    (hrest : ∀ byte ∈ rest, isConnectionByte byte = true) (hafter : Closes after)
    (hkeep : after = [13, 10] → lower (byte :: rest) ≠ ascii "keep") :
    OptionRead data .headerValueConnection s p part (byte :: rest) := by
  have hdrop' : data.drop (p + [byte].length) = rest ++ after := drop_of_drop hdrop
  have htab := isLower_tab byte
  have hspace := isLower_blank hbyte hblank
  have hlength : p + 1 + rest.length = p + (byte :: rest).length := by
    rw [List.length_cons]
    omega
  cases hc : isLower 'c' byte with
  | true =>
      have hstep : Reaches graph data (valueConfig .headerValueConnection s p) []
          (valueConfig .headerValueConnection1 s (p + 1)) := by
        refine .advance rfl hdrop ?_
        rw [choose_cons_of_neg htab, choose_cons_of_neg hspace, choose_cons_of_pos hc]
      have hlower : toLowerUnsafe byte = 99 := beq_iff_eq.1 hc
      have hread : OptionRead data .headerValueConnection1 s (p + 1) part rest :=
        optionRead_word rfl (fun q => .invoke rfl rfl rfl) (by decide) (Or.inr (Or.inl rfl)) hs
          (by rw [hlower]; decide) hpart hdrop' hrest
          (hafter.exists_foreign (by decide) (by decide))
          (hafter.not_prefix (by decide) fun _ hin => absurd
            (hin.subset (List.mem_append_right _ List.mem_cons_self)) (by decide))
      exact .of_reaches hstep ⟨s.headerState, rfl⟩ hread hlength
  | false =>
      cases hk : isLower 'k' byte with
      | true =>
          have hstep : Reaches graph data (valueConfig .headerValueConnection s p) []
              (valueConfig .headerValueConnection2 s (p + 1)) := by
            refine .advance rfl hdrop ?_
            rw [choose_cons_of_neg htab, choose_cons_of_neg hspace, choose_cons_of_neg hc,
              choose_cons_of_pos hk]
          have hlower : toLowerUnsafe byte = 107 := beq_iff_eq.1 hk
          have hread : OptionRead data .headerValueConnection2 s (p + 1) part rest :=
            optionRead_word rfl (fun q => .invoke rfl rfl rfl) (by decide) (Or.inl rfl) hs
              (by rw [hlower]; decide) hpart hdrop' hrest
              (hafter.exists_foreign (by decide) (by decide))
              (hafter.not_prefix (by decide) fun hline hin => hkeep hline (by
                rw [lower, List.map_cons, ← lower, eq_eep hin, hlower]
                rfl))
          exact .of_reaches hstep ⟨s.headerState, rfl⟩ hread hlength
      | false =>
          cases hu : isLower 'u' byte with
          | true =>
              have hstep : Reaches graph data (valueConfig .headerValueConnection s p) []
                  (valueConfig .headerValueConnection3 s (p + 1)) := by
                refine .advance rfl hdrop ?_
                rw [choose_cons_of_neg htab, choose_cons_of_neg hspace, choose_cons_of_neg hc,
                  choose_cons_of_neg hk, choose_cons_of_pos hu]
              have hlower : toLowerUnsafe byte = 117 := beq_iff_eq.1 hu
              have hread : OptionRead data .headerValueConnection3 s (p + 1) part rest :=
                optionRead_word rfl (fun q => .invoke rfl rfl rfl) (by decide)
                  (Or.inr (Or.inr rfl)) hs (by rw [hlower]; decide) hpart hdrop' hrest
                  (hafter.exists_foreign (by decide) (by decide))
                  (hafter.not_prefix (by decide) fun _ hin => absurd
                    (hin.subset (List.mem_append_right _ List.mem_cons_self)) (by decide))
              exact .of_reaches hstep ⟨s.headerState, rfl⟩ hread hlength
          | false =>
              have hgoes : Reaches graph data (valueConfig .headerValueConnection s p) []
                  (valueConfig .headerValueConnectionToken s p) := by
                refine .goto rfl hdrop ?_
                rw [choose_cons_of_neg htab, choose_cons_of_neg hspace, choose_cons_of_neg hc,
                  choose_cons_of_neg hk, choose_cons_of_neg hu, choose_nil]
              have hzero : optionFlag part = 0 := by
                refine optionFlag_of_not_prefix fun word hword hin => ?_
                have hletters : ∀ word ∈ options.map Prod.fst, word.head? = some 99 ∨
                    word.head? = some 107 ∨ word.head? = some 117 := by decide
                have hletter := hletters word hword
                cases word with
                | nil => simp at hletter
                | cons letter word =>
                    rw [hpart, lower, List.map_cons] at hin
                    obtain ⟨rfl, -⟩ := List.cons_prefix_cons.1 hin
                    simp only [List.head?_cons, Option.some.injEq] at hletter
                    rcases hletter with h | h | h
                    · exact beq_eq_false_iff_ne.1 hc h
                    · exact beq_eq_false_iff_ne.1 hk h
                    · exact beq_eq_false_iff_ne.1 hu h
              have hread : OptionRead data .headerValueConnectionToken s p part (byte :: rest) :=
                optionRead_token hs hdrop (List.forall_mem_cons.2 ⟨hbyte, hrest⟩) hzero
              exact .of_reaches hgoes ⟨s.headerState, rfl⟩ hread rfl

theorem optionRead (hs : pendingFlag s.headerState = 0) (hdrop : data.drop p = part ++ after)
    (hpart : ∀ byte ∈ part, isConnectionByte byte = true) (hafter : Closes after)
    (hkeep : after = [13, 10] → lower (part.dropWhile (· == 32)) ≠ ascii "keep") :
    OptionRead data .headerValueConnection s p part part := by
  obtain ⟨blanks, body, hsplit, hblanks, hbody⟩ : ∃ blanks body, part = blanks ++ body ∧
      (∀ byte ∈ blanks, byte = 32) ∧ part.dropWhile (· == 32) = body := by
    refine ⟨_, _, (List.takeWhile_append_dropWhile (p := (· == 32))).symm, fun byte hbyte => ?_, rfl⟩
    exact beq_iff_eq.1 (List.mem_takeWhile_imp hbyte :)
  rw [hsplit, List.append_assoc] at hdrop
  have hloop : Reaches graph data (valueConfig .headerValueConnection s p) []
      (valueConfig .headerValueConnection s (p + blanks.length)) :=
    .loop rfl hdrop fun byte hbyte => by rw [hblanks byte hbyte]; rfl
  suffices hread : OptionRead data .headerValueConnection s (p + blanks.length) part body from
    .of_reaches hloop ⟨s.headerState, rfl⟩ hread (by rw [hsplit, List.length_append, Nat.add_assoc])
  have hdrop' := drop_of_drop hdrop
  cases body with
  | nil =>
      obtain ⟨first, rest, rfl, hfirst⟩ := hafter.head
      have hgoes : Reaches graph data (valueConfig .headerValueConnection s (p + blanks.length)) []
          (valueConfig .headerValueConnectionToken s (p + blanks.length)) := by
        refine .goto rfl hdrop' ?_
        rcases hfirst with ⟨rfl, -⟩ | rfl <;> rfl
      have hzero : optionFlag part = 0 := by
        refine optionFlag_of_not_prefix fun word hword hin => ?_
        rw [hbody, lower, List.map_nil, List.prefix_nil] at hin
        revert word
        decide
      have hread := optionRead_token hs hdrop' (fun _ hmem => absurd hmem List.not_mem_nil) hzero
      exact .of_reaches hgoes ⟨s.headerState, rfl⟩ hread rfl
  | cons byte rest =>
      have hmem : ∀ other ∈ byte :: rest, isConnectionByte other = true := fun other hother =>
        hpart other (hsplit ▸ List.mem_append_right _ hother)
      have hblank : byte ≠ 32 := by
        rintro rfl
        have hhead := List.head?_dropWhile_not (· == (32 : UInt8)) part
        rw [hbody] at hhead
        cases hhead
      exact optionRead_body hs hbody hdrop' (hmem byte List.mem_cons_self) hblank
        (fun other hother => hmem other (List.mem_cons_of_mem _ hother)) hafter
        fun hline => hbody ▸ hkeep hline

/-- The comma behind an option. -/
theorem OptionRead.comma {label : Label} (h : OptionRead data label s p part rest)
    (hdrop : data.drop (p + rest.length) = 44 :: after) :
    ∃ s', Reaches graph data (valueConfig label s p) []
        (valueConfig .headerValueConnection s' (p + rest.length + 1)) ∧
      pendingFlag s'.headerState = 0 ∧ ∃ state,
        s' = { s with flags := s.flags ||| optionFlag part, headerState := state } := by
  obtain ⟨label', state, hreach, ⟨rfl, hpending, hzero⟩ | ⟨rfl, hflag, hstate⟩⟩ := h
  · have hcomma : Reaches graph data
        (valueConfig .headerValueConnectionToken { s with headerState := state } (p + rest.length))
        [] (valueConfig .headerValueConnection { s with headerState := state }
          (p + rest.length + 1)) :=
      .advance rfl hdrop rfl
    refine ⟨_, hreach.silent_trans hcomma, hpending, state, ?_⟩
    rw [hzero, UInt8.or_zero]
  · have hcomma : Reaches graph data
        (valueConfig .headerValueConnectionWs { s with headerState := state } (p + rest.length))
        [] (valueConfig .invokeLoadHeaderState3 { s with headerState := state }
          (p + rest.length + 1)) :=
      .advance rfl hdrop rfl
    have hcode : Reaches graph data
        (valueConfig .invokeLoadHeaderState3 { s with headerState := state } (p + rest.length + 1))
        [] (valueConfig .headerValueConnection
          { s with flags := s.flags ||| optionFlag part, headerState := 1 }
          (p + rest.length + 1)) := by
      rw [hflag]
      have hload {target : Label} (h : chooseCode [(5, .invokeOrFlags11), (6, .invokeOrFlags12),
          (7, .invokeOrFlags13), (8, .invokeOrFlags14)] .headerValueConnection state.toNat =
          target) :
          Reaches graph data
            (valueConfig .invokeLoadHeaderState3 { s with headerState := state }
              (p + rest.length + 1)) []
            (valueConfig target { s with headerState := state } (p + rest.length + 1)) :=
        .invoke rfl rfl h
      rcases hstate with rfl | rfl | rfl
      · exact (hload rfl).silent_trans (reaches_update rfl rfl)
      · exact (hload rfl).silent_trans (reaches_update rfl rfl)
      · exact (hload rfl).silent_trans (reaches_update rfl rfl)
    exact ⟨_, hreach.silent_trans (hcomma.silent_trans hcode), rfl, 1, rfl⟩

end Option

/-- The value of `Connection`: the parser leaves it with the flags of its options, the last one as
`header_state`; the induction is on the text that is left. -/
theorem reaches_connection {p : Nat} {text : Bytes} (hp : p ≤ value.length)
    (htext : value.drop p = text) (hvalue : ∀ byte ∈ text, isValueByte byte = true)
    (hs : pendingFlag s.headerState = 0)
    (hlast : lower ((lastOption text).dropWhile (· == 32)) ≠ ascii "keep") :
    ∃ s', Reaches graph (value ++ [13, 10]) (valueConfig .headerValueConnection s p)
        [.fragment .onHeaderValue value] (valueEnd value s') ∧ ∃ flags state,
      s' = { s with flags := flags, headerState := state } ∧
        flags ||| pendingFlag state = s.flags ||| connectionFlags text := by
  induction hn : text.length using Nat.strong_induction_on generalizing p s text with
  | _ n ih =>
      subst hn
      have hdrop := drop_crlf hp
      rw [htext] at hdrop
      have hconnection {part : Bytes} (hcomma : 44 ∉ part) (hpart : ∀ byte ∈ part, byte ∈ text) :
          ∀ byte ∈ part, isConnectionByte byte = true := fun byte hbyte =>
        isConnectionByte_of_value (hvalue byte (hpart byte hbyte)) fun heq => hcomma (heq ▸ hbyte)
      by_cases hcomma : 44 ∈ text
      · obtain ⟨part, rest, rfl, hpart⟩ := List.eq_append_cons_of_mem hcomma
        rw [List.append_assoc, List.cons_append] at hdrop
        rw [lastOption_append hpart] at hlast
        have hread := optionRead hs hdrop
          (hconnection hpart fun byte hbyte => List.mem_append_left _ hbyte)
          (Or.inr ⟨_, rfl⟩) fun hline => by cases hline
        obtain ⟨s', hreach, hs', state, rfl⟩ := hread.comma (drop_of_drop hdrop)
        have hlength := congrArg List.length htext
        rw [List.length_drop, List.length_append, List.length_cons] at hlength
        have htext' : value.drop (p + part.length + 1) = rest := by
          have hrest : value.drop (p + part.length) = [44] ++ rest := drop_of_drop htext
          exact drop_of_drop hrest
        have hless : rest.length < (part ++ 44 :: rest).length := by
          rw [List.length_append, List.length_cons]
          omega
        obtain ⟨last, hend, flags, state', rfl, hflags⟩ := ih rest.length hless (by omega)
          htext' (fun byte hbyte => hvalue byte (List.mem_append_right _
            (List.mem_cons_of_mem _ hbyte))) hs' hlast rfl
        refine ⟨_, hreach.silent_trans hend, flags, state', rfl, ?_⟩
        rw [hflags, connectionFlags_append hpart, UInt8.or_assoc]
      · rw [lastOption_of_not_mem hcomma] at hlast
        rw [connectionFlags_of_not_mem hcomma]
        obtain ⟨label', state, hreach, hcases⟩ := optionRead hs hdrop
          (hconnection hcomma fun _ => id) (Or.inl rfl) fun _ => hlast
        have hend : p + text.length = value.length := by
          rw [← htext, List.length_drop]
          omega
        rw [hend] at hreach
        have hgoes : Reaches graph (value ++ [13, 10])
            (valueConfig label' { s with headerState := state } value.length) []
            (valueConfig .headerValueOtherwise { s with headerState := state } value.length) := by
          rcases hcases with ⟨rfl, _⟩ | ⟨rfl, _⟩
          · exact .goto rfl drop_value rfl
          · exact .goto rfl drop_value rfl
        have hflag : optionFlag text = pendingFlag state := by
          rcases hcases with ⟨_, hpending, hzero⟩ | ⟨_, hflag, _⟩
          · rw [hpending, hzero]
          · exact hflag
        exact ⟨_, hreach.silent_trans (hgoes.silent_trans (reaches_crlf value _)), s.flags, state,
          rfl, by rw [hflag]⟩

/-- The first byte of a value. -/
theorem reaches_valueStart (s : Store) (byte : UInt8) (rest : Bytes)
    (h : ∀ blank ∈ [(9 : UInt8), 10, 13, 32], byte ≠ blank) :
    Reaches graph ((byte :: rest) ++ [13, 10]) ⟨.headerValueDiscardWs, 0, none, s, 0⟩ []
      (valueConfig .invokeLoadHeaderState1 s 0) := by
  have hdrop : ((byte :: rest) ++ [13, 10]).drop 0 = byte :: (rest ++ [13, 10]) := rfl
  have hgoes : Reaches graph ((byte :: rest) ++ [13, 10])
      ⟨.headerValueDiscardWs, 0, none, s, 0⟩ [] ⟨.spanStartOnHeaderValue1, 0, none, s, 0⟩ := by
    refine .goto rfl hdrop ?_
    rw [choose_cons_of_neg (is_of_ne (h 9 (by decide))),
      choose_cons_of_neg (is_of_ne (h 10 (by decide))),
      choose_cons_of_neg (is_of_ne (h 13 (by decide))),
      choose_cons_of_neg (is_of_ne (h 32 (by decide))), choose_nil]
  exact hgoes.silent_trans (.spanStart rfl hdrop)

/-- The flags that a header with a value stands for, by the `header_state` of its name. -/
def fieldFlags (state : UInt8) (value : Bytes) : UInt8 :=
  if state = 1 then connectionFlags value else if state = 4 then 16 else 0

/-- The value of a header that gives no length and no encoding, from its first byte on. -/
theorem reaches_fieldValue {byte : UInt8} {rest : Bytes}
    (hvalue : ∀ other ∈ byte :: rest, isValueByte other = true) (htab : byte ≠ 9)
    (hblank : byte ≠ 32)
    (hstate : s.headerState = 0 ∨ s.headerState = 1 ∨ s.headerState = 4)
    (hlast : s.headerState = 1 →
      lower ((lastOption (byte :: rest)).dropWhile (· == 32)) ≠ ascii "keep") :
    ∃ s', Reaches graph ((byte :: rest) ++ [13, 10]) ⟨.headerValueDiscardWs, 0, none, s, 0⟩
        [.fragment .onHeaderValue (byte :: rest)] (valueEnd (byte :: rest) s') ∧
      ∃ flags state, s' = { s with flags := flags, headerState := state } ∧
        flags ||| pendingFlag state = s.flags ||| fieldFlags s.headerState (byte :: rest) := by
  have hbyte := hvalue byte List.mem_cons_self
  have hfront := reaches_valueStart s byte rest (by
    simp only [List.forall_mem_cons]
    exact ⟨htab, ne_of_value hbyte rfl, ne_of_value hbyte rfl, hblank, nofun⟩)
  rcases hstate with hzero | hone | hfour
  · have hload : Reaches graph ((byte :: rest) ++ [13, 10])
        (valueConfig .invokeLoadHeaderState1 s 0) [] (valueConfig .headerValue s 0) :=
      .invoke rfl rfl (by change chooseCode _ _ s.headerState.toNat = _; rw [hzero]; rfl)
    refine ⟨s, hfront.silent_trans (hload.silent_trans (reaches_value hvalue (Nat.zero_le _))),
      s.flags, s.headerState, rfl, ?_⟩
    rw [hzero]
    rfl
  · have hload : Reaches graph ((byte :: rest) ++ [13, 10])
        (valueConfig .invokeLoadHeaderState1 s 0) [] (valueConfig .headerValueConnection s 0) :=
      .invoke rfl rfl (by change chooseCode _ _ s.headerState.toNat = _; rw [hone]; rfl)
    obtain ⟨s', hreach, flags, state, hs', hflags⟩ := reaches_connection (Nat.zero_le _) rfl hvalue
      (by rw [hone]; rfl) (hlast hone)
    refine ⟨s', hfront.silent_trans (hload.silent_trans hreach), flags, state, hs', ?_⟩
    rw [hflags, hone, List.drop_zero]
    rfl
  · have hload : Reaches graph ((byte :: rest) ++ [13, 10])
        (valueConfig .invokeLoadHeaderState1 s 0) [] (valueConfig .invokeOrFlags16 s 0) :=
      .invoke rfl rfl (by change chooseCode _ _ s.headerState.toNat = _; rw [hfour]; rfl)
    have hor : Reaches graph ((byte :: rest) ++ [13, 10])
        (valueConfig .invokeOrFlags16 s 0) [] (valueConfig .invokeUpdateHeaderState7
          { s with flags := s.flags ||| 16 } 0) :=
      .invoke rfl rfl rfl
    have hcode : Reaches graph ((byte :: rest) ++ [13, 10])
        (valueConfig .invokeUpdateHeaderState7 { s with flags := s.flags ||| 16 } 0) []
        (valueConfig .headerValue { s with flags := s.flags ||| 16, headerState := 0 } 0) :=
      .invoke rfl rfl rfl
    refine ⟨_, hfront.silent_trans (hload.silent_trans (hor.silent_trans (hcode.silent_trans
      (reaches_value hvalue (Nat.zero_le _))))), s.flags ||| 16, 0, rfl, ?_⟩
    rw [hfour]
    exact UInt8.or_zero

end Value

end Llhttp
end Inspector
end V8JsiRuntime
