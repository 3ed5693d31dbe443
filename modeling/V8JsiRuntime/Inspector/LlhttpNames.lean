import V8JsiRuntime.Lib.ParserPaths
import V8JsiRuntime.Inspector.Llhttp

/-!
# LlhttpNames — the names of headers

The parser compares the name of a header with those that it cares for while it reads it.  What comes
out is the name as sent, and which of these names it is, in any letter case.
-/

namespace V8JsiRuntime
namespace Inspector
namespace Llhttp

open Lib Lib.ParserGraph

/-- The bytes of a name. -/
def isTokenByte (byte : UInt8) : Bool :=
  isFieldByte byte && byte != 32

def lower (text : Bytes) : Bytes := text.map toLowerUnsafe

/-- The names that the parser cares for, with their `header_state`. -/
def special : List (Bytes × UInt8) :=
  [(ascii "connection", 1), (ascii "content-length", 2), (ascii "proxy-connection", 1),
    (ascii "transfer-encoding", 3), (ascii "upgrade", 4)]

def headerStateOf (name : Bytes) : UInt8 :=
  (special.lookup (lower name)).getD 0

theorem headerStateOf_of_mem {name word : Bytes} {value : UInt8} (hword : (word, value) ∈ special)
    (h : lower name = word) : headerStateOf name = value := by
  rw [headerStateOf, h]
  have hall : ∀ entry ∈ special, (special.lookup entry.1).getD 0 = entry.2 := by decide
  exact hall _ hword

theorem headerStateOf_of_not_mem {name : Bytes}
    (h : ∀ word ∈ special.map Prod.fst, lower name ≠ word) : headerStateOf name = 0 := by
  have hnone : special.lookup (lower name) = none := by
    rw [List.lookup_eq_none_iff]
    intro entry hentry
    exact bne_iff_ne.2 (h entry.1 (List.mem_map_of_mem hentry))
  rw [headerStateOf, hnone]
  rfl

/-! ## Bytes of a name -/

section Bytes

variable {byte : UInt8}

theorem isFieldByte_of_token (h : isTokenByte byte = true) : isFieldByte byte = true :=
  (Bool.and_eq_true_iff.1 h).1

theorem ne_of_token (h : isTokenByte byte = true) {other : UInt8}
    (hother : isTokenByte other = false) : byte ≠ other := by
  rintro rfl
  exact Bool.false_ne_true (hother.symm.trans h)

theorem is_of_token (h : isTokenByte byte = true) {c : Char}
    (hc : isTokenByte c.toUInt8 = false) : is c byte = false :=
  beq_eq_false_iff_ne.2 (ne_of_token h hc)

end Bytes

/-! ## Ways through a name -/

section Name

variable {name : Bytes} (s : Store)

/-- Inside of the name, with the colon behind it as the last byte of the chunk. -/
def nameConfig (label : Label) (s : Store) (p : Nat) : Config Label Store Span :=
  ⟨label, 0, some (.onHeaderField, 0), s, p⟩

def nameEnd (name : Bytes) (s : Store) : Config Label Store Span :=
  ⟨.headerValueDiscardWs, 0, none, s, name.length + 1⟩

theorem drop_colon {p : Nat} (hp : p ≤ name.length) :
    (name ++ [58]).drop p = name.drop p ++ [58] :=
  List.drop_append_of_le_length hp

theorem slice_name : slice (name ++ [58]) 0 name.length = name := by
  simp [slice]

theorem drop_name : (name ++ [58]).drop name.length = [58] := by
  simp

/-- The rest of a name that is none of the words. -/
theorem reaches_general (hname : ∀ byte ∈ name, isTokenByte byte = true) {p : Nat}
    (hp : p ≤ name.length) :
    Reaches graph (name ++ [58]) (nameConfig .headerFieldGeneral s p)
      [.fragment .onHeaderField name] (nameEnd name s) := by
  have hloop := Reaches.loop (g := graph) (c := nameConfig .headerFieldGeneral s p) rfl
    (drop_colon hp) fun byte hbyte =>
      choose_cons_of_pos (isFieldByte_of_token (hname byte (List.mem_of_mem_drop hbyte)))
  have hend : p + (name.drop p).length = name.length := by
    rw [List.length_drop]
    omega
  have hcolon : Reaches graph (name ++ [58]) (nameConfig .headerFieldGeneral s name.length) []
      (nameConfig .headerFieldGeneralOtherwise s name.length) :=
    .goto rfl drop_name rfl
  have hspan : Reaches graph (name ++ [58]) (nameConfig .headerFieldGeneralOtherwise s name.length)
      [] (nameConfig .spanEndOnHeaderField1 s name.length) :=
    .goto rfl drop_name rfl
  have hlast := Reaches.spanEnd_take (g := graph)
    (c := nameConfig .spanEndOnHeaderField1 s name.length) rfl rfl drop_name
  rw [show (nameConfig .spanEndOnHeaderField1 s name.length).p = name.length from rfl,
    slice_name] at hlast
  change Reaches graph (name ++ [58]) _ []
    (nameConfig .headerFieldGeneral s (p + (name.drop p).length)) at hloop
  rw [hend] at hloop
  exact hloop.silent_trans (hcolon.silent_trans (hspan.silent_trans hlast))

/-- Behind a word that is left, or not found, the name goes on as any other. -/
theorem reaches_other (hname : ∀ byte ∈ name, isTokenByte byte = true) {p : Nat}
    (hp : p ≤ name.length) (hstate : headerStateOf name = 0) :
    Reaches graph (name ++ [58]) (nameConfig .invokeUpdateHeaderState10 s p)
      [.fragment .onHeaderField name]
      (nameEnd name { s with headerState := headerStateOf name }) := by
  have hcode : Reaches graph (name ++ [58]) (nameConfig .invokeUpdateHeaderState10 s p) []
      (nameConfig .headerFieldGeneral { s with headerState := 0 } p) :=
    .invoke rfl rfl rfl
  rw [hstate]
  exact hcode.silent_trans (reaches_general _ hname hp)

/-- The end of one of the words: the name may end here or go on. -/
theorem reaches_colon (hname : ∀ byte ∈ name, isTokenByte byte = true) {p : Nat}
    (hp : p ≤ name.length) {value : UInt8}
    (hstate : headerStateOf name = if p = name.length then value else 0) :
    Reaches graph (name ++ [58]) (nameConfig .headerFieldColon { s with headerState := value } p)
      [.fragment .onHeaderField name]
      (nameEnd name { s with headerState := headerStateOf name }) := by
  by_cases hend : p = name.length
  · subst hend
    rw [if_pos rfl] at hstate
    have hcolon : Reaches graph (name ++ [58])
        (nameConfig .headerFieldColon { s with headerState := value } name.length) []
        (nameConfig .spanEndOnHeaderField { s with headerState := value } name.length) :=
      .goto rfl drop_name rfl
    have hlast := Reaches.spanEnd_take (g := graph)
      (c := nameConfig .spanEndOnHeaderField { s with headerState := value } name.length)
      rfl rfl drop_name
    rw [show (nameConfig .spanEndOnHeaderField { s with headerState := value } name.length).p =
      name.length from rfl, slice_name] at hlast
    rw [hstate]
    exact hcolon.silent_trans hlast
  · rw [if_neg hend] at hstate
    have hlt : p < name.length := Nat.lt_of_le_of_ne hp hend
    have hbyte := hname name[p] (List.getElem_mem hlt)
    have hdrop : (name ++ [58]).drop p = name[p] :: (name.drop (p + 1) ++ [58]) := by
      rw [drop_colon hp, List.drop_eq_getElem_cons hlt, List.cons_append]
    have hgoes : Reaches graph (name ++ [58])
        (nameConfig .headerFieldColon { s with headerState := value } p) []
        (nameConfig .invokeUpdateHeaderState9 { s with headerState := value } p) := by
      refine .goto rfl hdrop ?_
      rw [choose_cons_of_neg (is_of_token hbyte rfl), choose_cons_of_neg (is_of_token hbyte rfl),
        choose_nil]
    have hcode : Reaches graph (name ++ [58])
        (nameConfig .invokeUpdateHeaderState9 { s with headerState := value } p) []
        (nameConfig .headerFieldGeneral { s with headerState := 0 } p) :=
      .invoke rfl rfl rfl
    rw [hstate]
    exact hgoes.silent_trans (hcode.silent_trans (reaches_general _ hname hp))

/-! ### Words -/

section Words

variable {consumed blob : Bytes}

theorem lower_eq (h : consumed <+: lower name) : consumed.length ≤ name.length ∧
    lower name = consumed ++ lower (name.drop consumed.length) := by
  obtain ⟨rest, hrest⟩ := h
  have hlength := congrArg List.length hrest
  rw [List.length_append, lower, List.length_map] at hlength
  refine ⟨by omega, ?_⟩
  have hrest' : lower (name.drop consumed.length) = rest := by
    rw [lower, List.map_drop, ← lower, ← hrest, List.drop_left]
  rw [hrest', hrest]

/-- No word begins with what has been read. -/
theorem headerStateOf_of_dead (h : consumed <+: lower name)
    (hnext : ∀ word ∈ special.map Prod.fst, consumed <+: word → consumed ++ blob <+: word)
    (hnot : ¬ blob <+: lower (name.drop consumed.length)) : headerStateOf name = 0 := by
  refine headerStateOf_of_not_mem fun word hword heq => hnot ?_
  have hprefix := hnext word hword (heq ▸ h)
  rw [← heq, (lower_eq h).2] at hprefix
  exact (List.prefix_append_right_inj consumed).1 hprefix

/-- The colon is in no word. -/
theorem prefix_of_colon (hcolon : 58 ∉ blob) {text : Bytes} (h : blob <+: lower (text ++ [58])) :
    blob <+: lower text := by
  rw [lower, List.map_append, List.map_singleton, List.prefix_concat_iff] at h
  refine h.resolve_left fun heq => hcolon ?_
  rw [heq]
  exact List.mem_append_right _ List.mem_cons_self

/-- The parser compares the name with a word: it finds the word, or goes on with the name. -/
theorem reaches_blob {label complete : Label} (h : consumed <+: lower name)
    (hnode : graph.node label =
      .sequence toLowerUnsafe blob complete .invokeUpdateHeaderState10)
    (hblob : blob ≠ []) (hcolon : 58 ∉ blob)
    (hname : ∀ byte ∈ name, isTokenByte byte = true)
    (hnext : ∀ word ∈ special.map Prod.fst, consumed <+: word → consumed ++ blob <+: word)
    (hcomplete : consumed ++ blob <+: lower name →
      Reaches graph (name ++ [58]) (nameConfig complete s (consumed.length + blob.length))
        [.fragment .onHeaderField name]
        (nameEnd name { s with headerState := headerStateOf name })) :
    Reaches graph (name ++ [58]) (nameConfig label s consumed.length)
      [.fragment .onHeaderField name]
      (nameEnd name { s with headerState := headerStateOf name }) := by
  obtain ⟨hle, hlower⟩ := lower_eq h
  have hdrop := drop_colon hle
  by_cases hprefix : blob <+: lower (name.drop consumed.length)
  · obtain ⟨rest, hrest⟩ := hprefix
    have htake : ((name.drop consumed.length).take blob.length).map toLowerUnsafe = blob := by
      rw [List.map_take]
      change (lower (name.drop consumed.length)).take blob.length = blob
      rw [← hrest, List.take_left]
    have hlength : ((name.drop consumed.length).take blob.length).length = blob.length := by
      have heq := congrArg List.length htake
      rwa [List.length_map] at heq
    have hword := Reaches.word (g := graph) (c := nameConfig label s consumed.length) hnode rfl
      (fun hnil => hblob (by rw [← htake, hnil]; rfl))
      (by rw [← List.append_assoc, List.take_append_drop]; exact hdrop) htake
    rw [hlength] at hword
    refine hword.silent_trans (hcomplete ⟨rest, ?_⟩)
    rw [List.append_assoc, hrest, ← hlower]
  · have hdead := headerStateOf_of_dead h hnext hprefix
    have hnot : ¬ blob <+: ((name ++ [58]).drop consumed.length).map toLowerUnsafe :=
      fun hin => hprefix (prefix_of_colon hcolon (hdrop ▸ hin))
    have hforeign : ∃ byte ∈ (name ++ [58]).drop consumed.length, toLowerUnsafe byte ∉ blob :=
      ⟨58, by rw [hdrop]; simp, hcolon⟩
    obtain ⟨k, hk, _, hother⟩ := Reaches.noWord (g := graph)
      (c := nameConfig label s consumed.length) hnode rfl hblob hnot hforeign
    have hp : consumed.length + k ≤ name.length := by
      change k < ((name ++ [58]).drop consumed.length).length at hk
      rw [List.length_drop, List.length_append, List.length_singleton] at hk
      omega
    exact hother.silent_trans (reaches_other s hname hp hdead)

/-- The last part of a word. -/
theorem reaches_leaf {label : Label} {value : Nat} (h : consumed <+: lower name)
    (hnode : graph.node label = .sequence toLowerUnsafe blob (.invokeStoreHeaderState value)
      .invokeUpdateHeaderState10)
    (hblob : blob ≠ []) (hcolon : 58 ∉ blob)
    (hname : ∀ byte ∈ name, isTokenByte byte = true)
    (hword : (consumed ++ blob, UInt8.ofNat value) ∈ special)
    (honly : ∀ word ∈ special.map Prod.fst, consumed <+: word → word = consumed ++ blob) :
    Reaches graph (name ++ [58]) (nameConfig label s consumed.length)
      [.fragment .onHeaderField name]
      (nameEnd name { s with headerState := headerStateOf name }) := by
  refine reaches_blob s h hnode hblob hcolon hname
    (fun word hmem hin => honly word hmem hin ▸ List.prefix_rfl) fun hin => ?_
  have hlength : consumed.length + blob.length ≤ name.length := by
    rw [← List.length_append]
    exact (lower_eq hin).1
  have hcode : Reaches graph (name ++ [58])
      (nameConfig (.invokeStoreHeaderState value) s (consumed.length + blob.length)) []
      (nameConfig .headerFieldColon { s with headerState := UInt8.ofNat value }
        (consumed.length + blob.length)) :=
    .invoke rfl rfl rfl
  refine hcode.silent_trans (reaches_colon s hname hlength ?_)
  split
  · rename_i hend
    refine headerStateOf_of_mem hword ?_
    refine (hin.eq_of_length ?_).symm
    rw [List.length_append, hend, lower, List.length_map]
  · rename_i hend
    refine headerStateOf_of_not_mem fun word hmem heq => hend ?_
    have hsame := heq.trans (honly word hmem (heq ▸ h))
    have hlength := congrArg List.length hsame
    rw [List.length_append, lower, List.length_map] at hlength
    exact hlength.symm

/-- Two words begin with `con`. -/
theorem reaches_con (h : ascii "con" <+: lower name)
    (hname : ∀ byte ∈ name, isTokenByte byte = true) :
    Reaches graph (name ++ [58]) (nameConfig .headerField2 s 3)
      [.fragment .onHeaderField name]
      (nameEnd name { s with headerState := headerStateOf name }) := by
  obtain ⟨hle, hlower⟩ := lower_eq h
  change 3 ≤ name.length at hle
  change lower name = ascii "con" ++ lower (name.drop 3) at hlower
  have hother {byte : UInt8} {rest : Bytes} (hdrop : (name ++ [58]).drop 3 = byte :: rest)
      (hn : isLower 'n' byte = false) (ht : isLower 't' byte = false)
      (hstate : headerStateOf name = 0) :
      Reaches graph (name ++ [58]) (nameConfig .headerField2 s 3) [.fragment .onHeaderField name]
        (nameEnd name { s with headerState := headerStateOf name }) := by
    have hgoes : Reaches graph (name ++ [58]) (nameConfig .headerField2 s 3) []
        (nameConfig .invokeUpdateHeaderState10 s 3) := by
      refine .goto rfl hdrop ?_
      rw [choose_cons_of_neg hn, choose_cons_of_neg ht, choose_nil]
    exact hgoes.silent_trans (reaches_other s hname hle hstate)
  have hwords : ∀ word ∈ special.map Prod.fst, ascii "con" <+: word →
      ascii "conn" <+: word ∨ ascii "cont" <+: word := by decide
  cases hrest : name.drop 3 with
  | nil =>
      rw [hrest] at hlower
      refine hother (by rw [drop_colon hle, hrest]; rfl) rfl rfl ?_
      refine headerStateOf_of_not_mem fun word hword heq => ?_
      rw [hlower] at heq
      revert word
      decide
  | cons byte rest =>
      have hdrop : (name ++ [58]).drop 3 = byte :: (rest ++ [58]) := by
        rw [drop_colon hle, hrest, List.cons_append]
      rw [hrest] at hlower
      cases hn : isLower 'n' byte with
      | true =>
          have hstep : Reaches graph (name ++ [58]) (nameConfig .headerField2 s 3) []
              (nameConfig .headerField3 s 4) :=
            .advance rfl hdrop (choose_cons_of_pos hn)
          have hconn : ascii "conn" <+: lower name := by
            rw [hlower, lower, List.map_cons, show toLowerUnsafe byte = 110 from beq_iff_eq.1 hn]
            exact ⟨lower rest, rfl⟩
          exact hstep.silent_trans (reaches_leaf s hconn rfl (by decide) (by decide) hname
            (by decide) (by decide))
      | false =>
          cases ht : isLower 't' byte with
          | true =>
              have hstep : Reaches graph (name ++ [58]) (nameConfig .headerField2 s 3) []
                  (nameConfig .headerField4 s 4) := by
                refine .advance rfl hdrop ?_
                rw [choose_cons_of_neg hn, choose_cons_of_pos ht]
              have hcont : ascii "cont" <+: lower name := by
                rw [hlower, lower, List.map_cons, show toLowerUnsafe byte = 116 from beq_iff_eq.1 ht]
                exact ⟨lower rest, rfl⟩
              exact hstep.silent_trans (reaches_leaf s hcont rfl (by decide) (by decide) hname
                (by decide) (by decide))
          | false =>
              refine hother hdrop hn ht (headerStateOf_of_not_mem fun word hword heq => ?_)
              have hprefix := hwords word hword (heq ▸ h)
              rw [← heq, hlower] at hprefix
              have hbyte : toLowerUnsafe byte = 110 ∨ toLowerUnsafe byte = 116 := by
                refine hprefix.imp ?_ ?_ <;> rintro ⟨tail, htail⟩ <;>
                  exact (List.cons.inj ((List.append_right_inj (ascii "con")).1 htail)).1.symm
              rcases hbyte with hbyte | hbyte
              · exact absurd hbyte (beq_eq_false_iff_ne.1 hn)
              · exact absurd hbyte (beq_eq_false_iff_ne.1 ht)

theorem reaches_first (hname : ∀ byte ∈ name, isTokenByte byte = true) (hne : name ≠ []) :
    Reaches graph (name ++ [58]) (nameConfig .headerField s 0) [.fragment .onHeaderField name]
      (nameEnd name { s with headerState := headerStateOf name }) := by
  obtain ⟨byte, rest, rfl⟩ := List.exists_cons_of_ne_nil hne
  have hdrop : ((byte :: rest) ++ [58]).drop 0 = byte :: (rest ++ [58]) := rfl
  have hprefix (first : UInt8) (hbyte : toLowerUnsafe byte = first) :
      [first] <+: lower (byte :: rest) := by
    rw [lower, List.map_cons, hbyte]
    exact ⟨lower rest, rfl⟩
  cases hc : isLower 'c' byte with
  | true =>
      have hstep : Reaches graph ((byte :: rest) ++ [58]) (nameConfig .headerField s 0) []
          (nameConfig .headerField1 s 1) := .advance rfl hdrop (choose_cons_of_pos hc)
      have hin := hprefix 99 (beq_iff_eq.1 hc)
      exact hstep.silent_trans (reaches_blob s hin rfl (by decide) (by decide) hname (by decide)
        fun hcon => reaches_con s hcon hname)
  | false =>
      cases hp : isLower 'p' byte with
      | true =>
          have hstep : Reaches graph ((byte :: rest) ++ [58]) (nameConfig .headerField s 0) []
              (nameConfig .headerField5 s 1) := by
            refine .advance rfl hdrop ?_
            rw [choose_cons_of_neg hc, choose_cons_of_pos hp]
          have hin := hprefix 112 (beq_iff_eq.1 hp)
          exact hstep.silent_trans
            (reaches_leaf s hin rfl (by decide) (by decide) hname (by decide) (by decide))
      | false =>
          cases ht : isLower 't' byte with
          | true =>
              have hstep : Reaches graph ((byte :: rest) ++ [58]) (nameConfig .headerField s 0) []
                  (nameConfig .headerField6 s 1) := by
                refine .advance rfl hdrop ?_
                rw [choose_cons_of_neg hc, choose_cons_of_neg hp, choose_cons_of_pos ht]
              have hin := hprefix 116 (beq_iff_eq.1 ht)
              exact hstep.silent_trans
                (reaches_leaf s hin rfl (by decide) (by decide) hname (by decide) (by decide))
          | false =>
              cases hu : isLower 'u' byte with
              | true =>
                  have hstep : Reaches graph ((byte :: rest) ++ [58]) (nameConfig .headerField s 0)
                      [] (nameConfig .headerField7 s 1) := by
                    refine .advance rfl hdrop ?_
                    rw [choose_cons_of_neg hc, choose_cons_of_neg hp, choose_cons_of_neg ht,
                      choose_cons_of_pos hu]
                  have hin := hprefix 117 (beq_iff_eq.1 hu)
                  exact hstep.silent_trans
                    (reaches_leaf s hin rfl (by decide) (by decide) hname (by decide) (by decide))
              | false =>
                  have hstep : Reaches graph ((byte :: rest) ++ [58]) (nameConfig .headerField s 0)
                      [] (nameConfig .invokeUpdateHeaderState10 s 0) := by
                    refine .goto rfl hdrop ?_
                    rw [choose_cons_of_neg hc, choose_cons_of_neg hp, choose_cons_of_neg ht,
                      choose_cons_of_neg hu, choose_nil]
                  refine hstep.silent_trans (reaches_other s hname (Nat.zero_le _) ?_)
                  refine headerStateOf_of_not_mem fun word hword heq => ?_
                  have hfirst : ∀ word ∈ special.map Prod.fst,
                      word.head? = some 99 ∨ word.head? = some 112 ∨ word.head? = some 116 ∨
                        word.head? = some 117 := by decide
                  have hhead := hfirst word hword
                  rw [← heq, lower, List.map_cons, List.head?_cons] at hhead
                  simp only [Option.some.injEq] at hhead
                  rcases hhead with h | h | h | h
                  · exact absurd h (beq_eq_false_iff_ne.1 hc)
                  · exact absurd h (beq_eq_false_iff_ne.1 hp)
                  · exact absurd h (beq_eq_false_iff_ne.1 ht)
                  · exact absurd h (beq_eq_false_iff_ne.1 hu)

end Words

/-- From the beginning of a line through a name and its colon: the name is reported as it is, and
`header_state` tells which it is. -/
theorem reaches_name (hname : ∀ byte ∈ name, isTokenByte byte = true) (hne : name ≠ []) :
    Reaches graph (name ++ [58]) ⟨.headerFieldStart, 0, none, s, 0⟩
      [.fragment .onHeaderField name]
      (nameEnd name { s with headerState := headerStateOf name }) := by
  have hfirst := reaches_first s hname hne
  obtain ⟨byte, rest, rfl⟩ := List.exists_cons_of_ne_nil hne
  have hbyte := hname byte List.mem_cons_self
  have hdrop : ((byte :: rest) ++ [58]).drop 0 = byte :: (rest ++ [58]) := rfl
  have hstart : Reaches graph ((byte :: rest) ++ [58]) ⟨.headerFieldStart, 0, none, s, 0⟩ []
      ⟨.spanStartOnHeaderField, 0, none, s, 0⟩ := by
    refine .goto rfl hdrop ?_
    rw [choose_cons_of_neg (is_of_token hbyte rfl), choose_cons_of_neg (is_of_token hbyte rfl),
      choose_nil]
  have hopen : Reaches graph ((byte :: rest) ++ [58]) ⟨.spanStartOnHeaderField, 0, none, s, 0⟩ []
      (nameConfig .headerField s 0) :=
    .spanStart rfl hdrop
  exact hstart.silent_trans (hopen.silent_trans hfirst)

end Name

end Llhttp
end Inspector
end V8JsiRuntime
