import ComponentInsight.Events
import ComponentInsight.Proofs.Table
import Mathlib.Data.List.TakeWhile

/-!
# Every emitted event is found

The scan for events (`Events.scan`) goes from left to right and, after a call, on behind it. What it
is to find is said without any order: a name is emitted (`EmitsAt`) at each place where a call
stands and no word character in front of it, whatever else begins before.

* **Calls.** A text can be read as a call in one way only, so it does not matter how the parts of a
  call are tried (`call?_eq_some_iff`).
* **No overlaps.** No call begins inside of another one: the only parenthesis of a call is the one
  it is opened with (`IsCall.call?_eq_none`). So nothing is lost behind a call that was found.
* **The scan** visits all places with a call, and no other place contributes
  (`callsFrom_append`). Its result has the names of all emissions, in the order of their first
  places (`scan_lists`).
-/

namespace ComponentInsight.Events

open Text (isWordChar isBlank)

/-! ### Characters -/

private theorem eq_of_isQuote {q : Char} (hq : isQuote q = true) :
    q = '\'' ∨ q = '"' ∨ q = Char.ofNat 0x60 := by
  have hcases : (q = '\'' ∨ q = '"') ∨ q.toNat = 0x60 := by simpa [isQuote] using hq
  rcases hcases with (rfl | rfl) | hq
  · exact .inl rfl
  · exact .inr (.inl rfl)
  · exact .inr (.inr (by rw [← hq, Char.ofNat_toNat]))

/-- A quote is part of no name and of no word, it is not blank, and no call begins with it. -/
private theorem isQuote_spec {q : Char} (hq : isQuote q = true) :
    isNameChar q = false ∧ isWordChar q = false ∧ isBlank q = false ∧ q ≠ 'e' ∧ q ≠ '(' := by
  rcases eq_of_isQuote hq with rfl | rfl | rfl <;> decide

private theorem isNameChar_parenthesis : isNameChar '(' = false := by decide

private theorem ne_of_isBlank {c : Char} (h : isBlank c = true) : c ≠ 'e' := by
  rintro rfl
  exact absurd h (by decide)

/-! ### Calls -/

/-- What a call begins with. -/
def callStart : List Char := "emit(".toList

/-- The opening of a call is what calls begin with. -/
private theorem opening?_eq_some_iff {cs rest : List Char} :
    opening? cs = some rest ↔ cs = callStart ++ rest := by
  have hstart : callStart = ['e', 'm', 'i', 't', '('] := by decide
  unfold opening?
  split
  · simp [hstart]
  · next hother =>
    refine iff_of_false nofun fun heq => hother rest ?_
    simpa [hstart] using heq

private theorem quote?_eq_some_iff {cs rest : List Char} :
    quote? cs = some rest ↔ ∃ q, isQuote q = true ∧ cs = q :: rest := by
  cases cs with
  | nil => simp [quote?]
  | cons c cs => by_cases hc : isQuote c = true <;> grind [quote?]

/-- A text that begins with a call: the name it emits and the text behind the closing quote. -/
structure IsCall (cs name rest : List Char) : Prop where
  exists_parts : ∃ blanks opener closer,
    cs = callStart ++ (blanks ++ opener :: (name ++ closer :: rest)) ∧
      (∀ c ∈ blanks, isBlank c = true) ∧ isQuote opener = true ∧ isQuote closer = true
  ne_nil : name ≠ []
  isNameChar_of_mem : ∀ c ∈ name, isNameChar c = true

/-- A text is read as a call in one way, if at all. -/
theorem call?_eq_some_iff {cs rest : List Char} {name : String} :
    call? cs = some (name, rest) ↔ IsCall cs name.toList rest := by
  constructor
  · intro h
    simp only [call?, Option.bind_eq_bind, Option.bind_eq_some_iff, opening?_eq_some_iff,
      quote?_eq_some_iff] at h
    obtain ⟨inner, rfl, quoted, ⟨opener, hopener, hblanks⟩, after, ⟨closer, hcloser, hname⟩,
      hresult⟩ := h
    obtain ⟨hne, hresult⟩ : (quoted.takeWhile isNameChar).isEmpty = false ∧
        (String.ofList (quoted.takeWhile isNameChar), after) = (name, rest) := by
      simpa using hresult
    obtain ⟨rfl, rfl⟩ := Prod.mk.inj hresult
    rw [String.toList_ofList]
    refine ⟨⟨inner.takeWhile isBlank, opener, closer, ?_, ?_, hopener, hcloser⟩, ?_, ?_⟩
    · rw [← hname, List.takeWhile_append_dropWhile, ← hblanks, List.takeWhile_append_dropWhile]
    · exact fun c hc => List.mem_takeWhile_imp hc
    · simpa using hne
    · exact fun c hc => List.mem_takeWhile_imp hc
  · rintro ⟨⟨blanks, opener, closer, rfl, hblanks, hopener, hcloser⟩, hne, hname⟩
    have hopening : opening? (callStart ++ (blanks ++ opener :: (name.toList ++ closer :: rest)))
        = some (blanks ++ opener :: (name.toList ++ closer :: rest)) :=
      opening?_eq_some_iff.mpr rfl
    -- blanks end at the opening quote, and the name ends at the closing one
    have hquoted : (blanks ++ opener :: (name.toList ++ closer :: rest)).dropWhile isBlank =
        opener :: (name.toList ++ closer :: rest) := by
      rw [List.dropWhile_append_of_pos hblanks,
        List.dropWhile_cons_of_neg (by simp [isQuote_spec hopener])]
    have hrest : (name.toList ++ closer :: rest).dropWhile isNameChar = closer :: rest := by
      rw [List.dropWhile_append_of_pos hname,
        List.dropWhile_cons_of_neg (by simp [isQuote_spec hcloser])]
    have htaken : (name.toList ++ closer :: rest).takeWhile isNameChar = name.toList := by
      rw [List.takeWhile_append_of_pos hname,
        List.takeWhile_cons_of_neg (by simp [isQuote_spec hcloser]), List.append_nil]
    have hname : name.toList.isEmpty = false := by simpa using hne
    simp only [call?, hopening, hquoted, hrest, htaken, quote?, hopener, hcloser, hname,
      String.ofList_toList, if_true, if_false, Option.bind_eq_bind, Option.bind_some,
      Bool.false_eq_true]

/-! ### No overlaps -/

private theorem call?_eq_none {cs : List Char} (h : opening? cs = none) : call? cs = none := by
  rw [call?, h]
  rfl

/-- No call begins where there is no `e`. -/
private theorem opening?_append_of_ne {part rest : List Char} (hpart : part ≠ [])
    (hne : ∀ c ∈ part, c ≠ 'e') : opening? (part ++ rest) = none := by
  obtain ⟨c, part, rfl⟩ := List.exists_cons_of_ne_nil hpart
  unfold opening?
  split
  · next heq => exact absurd (List.cons.inj heq).1 (hne c List.mem_cons_self)
  · rfl

/-- No call begins in a name: its parenthesis would have to be in the name or behind it, where the
closing quote is. -/
private theorem opening?_name_append {name rest : List Char} {closer : Char}
    (hcloser : isQuote closer = true) (hname : ∀ c ∈ name, isNameChar c = true) :
    opening? (name ++ closer :: rest) = none := by
  by_contra hopening
  obtain ⟨inner, hinner⟩ := Option.ne_none_iff_exists'.mp hopening
  have htexts : name ++ closer :: rest = ['e', 'm', 'i', 't'] ++ '(' :: inner :=
    opening?_eq_some_iff.mp hinner
  have hletters : ∀ c ∈ ['e', 'm', 'i', 't'], isNameChar c = true :=
    List.all_eq_true.mp (by decide)
  have hends := congrArg (List.dropWhile isNameChar) htexts
  rw [List.dropWhile_append_of_pos hname, List.dropWhile_append_of_pos hletters,
    List.dropWhile_cons_of_neg (by simp [isQuote_spec hcloser]),
    List.dropWhile_cons_of_neg (by simp [isNameChar_parenthesis])] at hends
  exact (isQuote_spec hcloser).2.2.2.2 (List.cons.inj hends).1

/-- What two texts together end with is an end of the second, or all of it behind an end of the
first. -/
private theorem suffix_append_cases {front back ending : List Char} (h : ending <:+ front ++ back) :
    ending <:+ back ∨ ∃ part, part ≠ [] ∧ part <:+ front ∧ ending = part ++ back := by
  rcases List.suffix_or_suffix_of_suffix h (List.suffix_append front back) with hback | ⟨part, rfl⟩
  · exact .inl hback
  · by_cases hpart : part = []
    · exact .inl (by simp [hpart])
    · exact .inr ⟨part, hpart, List.suffix_append_self_iff.mp h, rfl⟩

namespace IsCall

variable {cs name rest : List Char}

/-- A call ends with a quote. -/
private theorem exists_eq_append (h : IsCall cs name rest) :
    ∃ call closer, cs = call ++ closer :: rest ∧ isQuote closer = true := by
  obtain ⟨blanks, opener, closer, rfl, -, -, hcloser⟩ := h.exists_parts
  exact ⟨callStart ++ (blanks ++ opener :: name), closer, by simp, hcloser⟩

/-- No call begins inside of a call. -/
theorem call?_eq_none (h : IsCall cs name rest) {inner : List Char} (hinner : inner <:+ cs)
    (hne : inner ≠ cs) (hlength : rest.length < inner.length) : call? inner = none := by
  obtain ⟨blanks, opener, closer, rfl, hblanks, hopener, hcloser⟩ := h.exists_parts
  refine Events.call?_eq_none ?_
  rcases suffix_append_cases hinner with hinner | ⟨part, hpart, hstart, rfl⟩
  case inr =>
    -- the other characters of the beginning are none that a call begins with
    have hproper : part <:+ ['m', 'i', 't', '('] := by
      refine (List.suffix_cons_iff.mp hstart).resolve_left fun heq => hne ?_
      rw [heq]
      rfl
    refine opening?_append_of_ne hpart ?_
    rintro _ hc rfl
    exact absurd (hproper.mem hc) (by decide)
  rw [← List.singleton_append, ← List.append_assoc] at hinner
  rcases suffix_append_cases hinner with hinner | ⟨part, hpart, hquoted, rfl⟩
  case inr =>
    refine opening?_append_of_ne hpart fun c hc => ?_
    rcases List.mem_append.mp (hquoted.mem hc) with hc | hc
    · exact ne_of_isBlank (hblanks c hc)
    · exact List.mem_singleton.mp hc ▸ (isQuote_spec hopener).2.2.2.1
  rw [← List.singleton_append, ← List.append_assoc] at hinner
  rcases suffix_append_cases hinner with hinner | ⟨part, hpart, hnamed, rfl⟩
  case inr =>
    obtain ⟨ending, rfl, hend⟩ := (List.suffix_concat_iff.mp hnamed).resolve_left hpart
    rw [List.append_assoc]
    exact opening?_name_append hcloser fun c hc => h.isNameChar_of_mem c (hend.mem hc)
  -- an end of what stands behind the call is too short
  exact absurd hinner.length_le (Nat.not_le.mpr hlength)

end IsCall

/-! ### The scan -/

/-- Whether a text ends with a word character. -/
def endsInWord (text : List Char) : Bool := text.getLast?.any isWordChar

/-- The name that is emitted at a place: a call stands there, and no word character in front. -/
def emitted? (text : List Char) (i : Nat) : Option String :=
  if endsInWord (text.take i) then none else (call? (text.drop i)).map Prod.fst

/-- What is emitted at a place depends on the word in front of it and on what follows. -/
private theorem emitted?_append (before cs : List Char) (i : Nat) :
    emitted? (before ++ cs) (before.length + i) =
      if endsInWord (before ++ cs.take i) then none else (call? (cs.drop i)).map Prod.fst := by
  rw [emitted?, List.take_length_add_append, List.drop_length_add_append]

private theorem emitted?_length (before cs : List Char) :
    emitted? (before ++ cs) before.length =
      (if endsInWord before then none else call? cs).map Prod.fst := by
  have hfirst := emitted?_append before cs 0
  rw [Nat.add_zero, List.take_zero, List.append_nil, List.drop_zero] at hfirst
  rw [hfirst]
  split <;> rfl

private theorem endsInWord_concat (before : List Char) (c : Char) :
    endsInWord (before ++ [c]) = isWordChar c := by
  simp [endsInWord]

/-- What the scan does at one place. -/
private theorem callsFrom_cons (inWord : Bool) (c : Char) (rest : List Char) :
    callsFrom inWord (c :: rest) =
      match (if inWord then none else call? (c :: rest)) with
      | some (name, after) => name :: callsFrom false after
      | none => callsFrom (isWordChar c) rest := by
  rw [callsFrom]
  split
  · next name after hcall => cases inWord <;> simp [hcall]
  · next hcall => cases inWord <;> simp [hcall]

/-- Nothing is emitted at the places inside of a call. -/
private theorem IsCall.emitted?_eq_none {call name after : List Char} {closer : Char}
    (h : IsCall (call ++ closer :: after) name after) (before : List Char) {i : Nat}
    (hi : i ∈ List.range' (before.length + 1) call.length) :
    emitted? (before ++ (call ++ closer :: after)) i = none := by
  obtain ⟨hlow, hhigh⟩ := List.mem_range'_1.mp hi
  obtain ⟨d, rfl⟩ := Nat.exists_eq_add_of_le (Nat.le_of_succ_le hlow)
  have hlength :
      ((call ++ closer :: after).drop d).length = call.length + 1 + after.length - d := by
    rw [List.length_drop, List.length_append, List.length_cons]
    omega
  have hnone : call? ((call ++ closer :: after).drop d) = none := by
    refine h.call?_eq_none (List.drop_suffix d _) (fun heq => ?_) (by omega)
    have hsame := congrArg List.length heq
    rw [hlength, List.length_append, List.length_cons] at hsame
    omega
  rw [emitted?_append, hnone]
  split <;> rfl

/-- The places from a call on emit its name, and then what the places behind it emit. -/
private theorem IsCall.filterMap_emitted? {call after before : List Char} {closer : Char}
    {name : String} (h : IsCall (call ++ closer :: after) name.toList after)
    (hboundary : endsInWord before = false) :
    (List.range' before.length (call ++ closer :: after).length).filterMap
        (emitted? (before ++ (call ++ closer :: after))) =
      name :: (List.range' (before ++ (call ++ [closer])).length after.length).filterMap
        (emitted? (before ++ (call ++ closer :: after))) := by
  have hfirst : emitted? (before ++ (call ++ closer :: after)) before.length = some name := by
    rw [emitted?_length, hboundary, call?_eq_some_iff.mpr h]
    rfl
  have hinside : (List.range' (before.length + 1) call.length).filterMap
      (emitted? (before ++ (call ++ closer :: after))) = [] :=
    List.filterMap_eq_nil_iff.mpr fun i hi => h.emitted?_eq_none before hi
  have hlength : (call ++ closer :: after).length = call.length + after.length + 1 := by
    rw [List.length_append, List.length_cons, Nat.add_assoc]
  have hbehind : (before ++ (call ++ [closer])).length = before.length + 1 + call.length := by
    simp only [List.length_append, List.length_singleton]
    omega
  rw [hlength, List.range'_succ, List.filterMap_cons_some hfirst, ← List.range'_append_1,
    List.filterMap_append, hinside, List.nil_append, hbehind]

/-- **The scan visits every place.** Behind any text, what it finds is what is emitted at the places
from there on. -/
theorem callsFrom_append (before cs : List Char) :
    callsFrom (endsInWord before) cs =
      (List.range' before.length cs.length).filterMap (emitted? (before ++ cs)) := by
  -- after a call the scan goes on behind it, so the induction is on what is left of the text
  induction hleft : cs.length using Nat.strong_induction_on generalizing before cs with
  | _ n ih =>
    subst hleft
    cases cs with
    | nil => rw [callsFrom]; rfl
    | cons c rest =>
      rw [callsFrom_cons]
      cases hcall : if endsInWord before then none else call? (c :: rest) with
      | none =>
        have hfirst := emitted?_length before (c :: rest)
        have hnext := ih rest.length (by simp) (before ++ [c]) rest rfl
        rw [hcall] at hfirst
        rw [endsInWord_concat, List.append_assoc, List.singleton_append, List.length_append,
          List.length_singleton] at hnext
        rw [List.length_cons, List.range'_succ, List.filterMap_cons_none hfirst, ← hnext]
      | some found =>
        obtain ⟨name, after⟩ := found
        obtain ⟨hboundary, hread⟩ : endsInWord before = false ∧
            call? (c :: rest) = some (name, after) := by
          split at hcall
          · cases hcall
          · next hboundary => exact ⟨by simpa using hboundary, hcall⟩
        have hisCall : IsCall (c :: rest) name.toList after := call?_eq_some_iff.mp hread
        obtain ⟨call, closer, heq, hcloser⟩ := hisCall.exists_eq_append
        have hnext := ih after.length (length_call? hread) (before ++ (call ++ [closer])) after rfl
        rw [← List.append_assoc, endsInWord_concat, (isQuote_spec hcloser).2.1] at hnext
        rw [heq] at hisCall ⊢
        simp only [hisCall.filterMap_emitted? hboundary, hnext]
        simp

/-! ### Emitted events -/

/-- At a place of a text stands a call that emits a name, and no word character in front of it. -/
structure EmitsAt (text : List Char) (i : Nat) (name : String) : Prop where
  exists_isCall : ∃ after, IsCall (text.drop i) name.toList after
  isWordChar_eq_false : ∀ c ∈ (text.take i).getLast?, isWordChar c = false

/-- At a place, the scan finds an event exactly if one is emitted there. -/
private theorem emitted?_eq_some_iff {text : List Char} {i : Nat} {name : String} :
    emitted? text i = some name ↔ EmitsAt text i name := by
  have hboundary : endsInWord (text.take i) = false ↔
      ∀ c ∈ (text.take i).getLast?, isWordChar c = false := by
    cases h : (text.take i).getLast? <;> simp [endsInWord, h]
  have hcall : (call? (text.drop i)).map Prod.fst = some name ↔
      ∃ after, IsCall (text.drop i) name.toList after := by
    simp [← call?_eq_some_iff]
  rw [emitted?]
  split
  · next hword => exact iff_of_false nofun fun h => absurd (hboundary.mpr h.2) (by simp [hword])
  · next hword =>
    rw [hcall]
    exact ⟨fun h => ⟨h, hboundary.mp (by simpa using hword)⟩, EmitsAt.exists_isCall⟩

/-- A call takes up characters, so its place is one of the text. -/
private theorem EmitsAt.lt_length {text : List Char} {i : Nat} {name : String}
    (h : EmitsAt text i name) : i < text.length := by
  obtain ⟨after, hcall⟩ := h.exists_isCall
  obtain ⟨call, closer, heq, -⟩ := hcall.exists_eq_append
  have hlength := congrArg List.length heq
  rw [List.length_drop, List.length_append, List.length_cons] at hlength
  omega

/-- **Soundness and completeness of the scan.** The names are those that are emitted anywhere, each
of them once, in the order of their first places. -/
theorem scan_lists (text : String) :
    (scan text).Nodup ∧ (∀ name, name ∈ scan text ↔ ∃ i, EmitsAt text.toList i name) ∧
      (scan text).Pairwise fun a b =>
        ∃ i, EmitsAt text.toList i a ∧ ∀ j, EmitsAt text.toList j b → i < j := by
  have hscan : scan text = Distinct.ofList
      ((List.range text.toList.length).filterMap (emitted? text.toList)) := by
    have hcalls := callsFrom_append [] text.toList
    rw [List.nil_append, List.length_nil, ← List.range_eq_range'] at hcalls
    exact congrArg Distinct.ofList hcalls
  rw [hscan]
  refine ⟨Distinct.nodup_addAll List.nodup_nil _, fun name => ?_, ?_⟩
  · rw [Distinct.mem_ofList, List.mem_filterMap]
    constructor
    · rintro ⟨i, -, hi⟩
      exact ⟨i, emitted?_eq_some_iff.mp hi⟩
    · rintro ⟨i, hi⟩
      exact ⟨i, List.mem_range.mpr hi.lt_length, emitted?_eq_some_iff.mpr hi⟩
  · simpa only [emitted?_eq_some_iff] using
      Distinct.pairwise_ofList_filterMap_range (emitted? text.toList) text.toList.length

/-- Calls may be nested, and a name that is emitted again is not listed again. -/
example : scan "emit('open', emit( \"close\")); this.emit('open')" = ["open", "close"] := by
  decide +kernel

end ComponentInsight.Events
