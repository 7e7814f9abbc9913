import ComponentInsight.Proofs.Script.Tokens
import ComponentInsight.Script.Grammar

/-!
# Parsers make progress

Loops and recursion of the parser are bounded, and a parser whose bound is exhausted ends the whole
reading (`Reply.exhausted`). What keeps a parser from that is progress: a loop that goes round reads
something in each round, and a production is nested in itself only behind something that was read.
`Reads` is the judgement that says both. It tells:

* **Where the parser begins**: at most `n` characters lie ahead, fewer if something was read before
  (`moved`), and the current token has characters of its own if it is known what it is (`covered`).
* **How far it gets** (`Pace`), which may depend on what it reads.

The judgement of a parser follows from those of its parts. The rules are instances, so the search
for an instance finds the derivation along the parser: behind a part that goes on, all that follows
has moved; behind a test of the current token, the token is known on the side where the test
succeeds.
-/

namespace ComponentInsight.Script

/-- How many characters lie ahead, from the current token on. -/
def State.ahead (cs : Array Char) (s : State) : Nat := cs.size - s.token.start

/-- Where a parser may begin: `n` characters lie ahead, or fewer if something was read (`moved`).
The current token is no end and not invalid if it is known (`covered`). -/
structure State.Stands (cs : Array Char) (n : Nat) (moved covered : Bool) (s : State) : Prop where
  fits : s.token.Fits cs
  ahead : s.ahead cs + moved.toNat ≤ n
  covers : covered = true → s.token.kind.covers = true

/-! ### Paces -/

/-- How far a parser gets. -/
inductive Pace where
  /-- It stays at its token. -/
  | rests
  /-- It stays at its token, which has characters of its own. -/
  | tells
  /-- It does not go back. -/
  | stays
  /-- It goes on by a character at least. -/
  | advances

/-- What a pace says about the states before and after. -/
def Pace.Holds (cs : Array Char) (s s' : State) : Pace → Prop
  | .rests => s'.token = s.token
  | .tells => s'.token = s.token ∧ s.token.kind.covers = true
  | .stays => s'.token.Fits cs ∧ s'.ahead cs ≤ s.ahead cs
  | .advances => s'.token.Fits cs ∧ s'.ahead cs < s.ahead cs

/-- The paces that count for what lies ahead only. -/
def Pace.IsMoving : Pace → Prop
  | .rests | .tells => False
  | .stays | .advances => True

section Pace

variable {cs : Array Char} {s s' s'' : State} {π : Pace}

/-- At no pace does a parser go back. -/
private theorem Pace.Holds.stays (h : π.Holds cs s s') (hs : s.token.Fits cs) :
    s'.token.Fits cs ∧ s'.ahead cs ≤ s.ahead cs := by
  have hsame : s'.token = s.token → s'.token.Fits cs ∧ s'.ahead cs ≤ s.ahead cs := fun htoken =>
    ⟨htoken ▸ hs, Nat.le_of_eq (by rw [State.ahead, State.ahead, htoken])⟩
  cases π with
  | rests => exact hsame h
  | tells => exact hsame h.1
  | stays => exact h
  | advances => exact ⟨h.1, Nat.le_of_lt h.2⟩

/-- A pace is kept by a parser that begins at the same token. -/
theorem Pace.Holds.congr (h : π.Holds cs s' s'') (hs : s'.token = s.token) :
    π.Holds cs s s'' := by
  cases π <;> simpa only [Pace.Holds, State.ahead, hs] using h

/-- A pace is kept by a parser that begins further behind. -/
theorem Pace.Holds.of_le (h : π.Holds cs s' s'') (hπ : π.IsMoving)
    (hs : s'.ahead cs ≤ s.ahead cs) : π.Holds cs s s'' := by
  cases π with
  | rests | tells => exact hπ.elim
  | stays => exact ⟨h.1, Nat.le_trans h.2 hs⟩
  | advances => exact ⟨h.1, Nat.lt_of_lt_of_le h.2 hs⟩

/-- A parser that went on kept every pace that counts for what lies ahead. -/
private theorem Pace.holds_of_lt (hπ : π.IsMoving) (hs : s'.token.Fits cs)
    (hlt : s'.ahead cs < s.ahead cs) : π.Holds cs s s' := by
  cases π with
  | rests | tells => exact hπ.elim
  | stays => exact ⟨hs, Nat.le_of_lt hlt⟩
  | advances => exact ⟨hs, hlt⟩

end Pace

/-- The reply does not exhaust a bound, and what is read is read at its pace. -/
def Reply.Meets {α : Type} (cs : Array Char) (s : State) (pace : α → Pace) : Reply α → Prop
  | .ok a s' => (pace a).Holds cs s s'
  | .fail _ => True
  | .exhausted => False

/-- A reply meets every pace that follows from its own. -/
private theorem Reply.Meets.imp {α : Type} {cs : Array Char} {s s' : State} {pace pace' : α → Pace}
    {r : Reply α} (hr : r.Meets cs s pace)
    (h : ∀ a t, (pace a).Holds cs s t → (pace' a).Holds cs s' t) : r.Meets cs s' pace' := by
  cases r with
  | ok a t => exact h a t hr
  | fail => trivial
  | exhausted => exact hr

namespace Parser

variable {α β γ σ ρ : Type}

def resting (_ : α) : Pace := .rests

def staying (_ : α) : Pace := .stays

def advancing (_ : α) : Pace := .advances

/-- The pace of a test: the token is known when it succeeds. -/
def testing : Bool → Pace
  | true => .tells
  | false => .rests

/-- The pace of a step of a loop, which goes on if the step is to be repeated. -/
def repeating : Step σ ρ → Pace
  | .again _ => .advances
  | .done _ => .stays

/-- The pace of a parser that may find nothing. -/
def finding : Option α → Pace
  | some _ => .advances
  | none => .stays

/-- The pace of a parser that tells whether it read something. -/
def consuming : Bool → Pace
  | true => .advances
  | false => .stays

/-- Whatever is read, it is read at a pace that counts for what lies ahead only. -/
class Moving (pace : α → Pace) : Prop where
  isMoving : ∀ a, (pace a).IsMoving

instance moving_staying : Moving (staying : α → Pace) := ⟨fun _ => trivial⟩

instance moving_advancing : Moving (advancing : α → Pace) := ⟨fun _ => trivial⟩

instance moving_repeating : Moving (repeating : Step σ ρ → Pace) :=
  ⟨fun a => by cases a <;> trivial⟩

instance moving_consuming : Moving consuming := ⟨fun b => by cases b <;> trivial⟩

instance moving_finding : Moving (finding : Option α → Pace) := ⟨fun a => by cases a <;> trivial⟩

/-! ### The judgement -/

/-- From where it begins, the parser does not exhaust a bound and keeps its pace. -/
class Reads (n : Nat) (moved covered : Bool) (pace : α → Pace) (p : Parser α) : Prop where
  meets : ∀ e s, s.Stands e.text n moved covered → (p e s).Meets e.text s pace

variable {n : Nat} {m c : Bool} {pace : α → Pace} {pace' : β → Pace} {p : Parser α}
  {f : α → Parser β}

theorem bind_apply (p : Parser α) (f : α → Parser β) (e : Environment) (s : State) :
    (p >>= f) e s =
      match p e s with
      | .ok a s => f a e s
      | .fail m => .fail m
      | .exhausted => .exhausted :=
  rfl

private theorem bind_assoc (p : Parser α) (f : α → Parser β) (g : β → Parser γ) :
    p >>= f >>= g = p >>= fun a => f a >>= g := by
  funext e s
  simp only [bind_apply]
  cases p e s <;> rfl

private theorem bind_pure (p : Parser α) : p >>= pure = p := by
  funext e s
  rw [bind_apply]
  cases p e s <;> rfl

/-- A parser and what follows it: the latter is told from every state that the former may leave. -/
theorem meets_bind {e : Environment} {s : State} (hp : (p e s).Meets e.text s pace)
    (hf : ∀ a s', (pace a).Holds e.text s s' → (f a e s').Meets e.text s pace') :
    ((p >>= f) e s).Meets e.text s pace' := by
  rw [bind_apply]
  cases h : p e s with
  | ok a s' => exact hf a s' (by rwa [h] at hp)
  | fail => trivial
  | exhausted => rwa [h] at hp

/-- What follows a parser that stays at its token begins where that one began. -/
theorem Reads.rest_bind [h : Reads n m c resting p] (hf : ∀ a, Reads n m c pace' (f a)) :
    Reads n m c pace' (p >>= f) where
  meets e s hs := meets_bind (h.meets e s hs) fun a s' (hs' : s'.token = s.token) =>
    ((hf a).meets e s' ⟨hs' ▸ hs.fits, by simpa only [State.ahead, hs'] using hs.ahead,
      hs' ▸ hs.covers⟩).imp fun _ _ ht => ht.congr hs'

section Behind

variable {e : Environment} {s s' : State} {q : Parser β} [hpace : Moving pace']

/-- Behind a parser that does not go back, the next one begins no earlier, at an unknown token. -/
theorem meets_of_stays (hs : s.Stands e.text n m c) (hs' : Pace.stays.Holds e.text s s')
    (hq : Reads n m false pace' q) : (q e s').Meets e.text s pace' :=
  (hq.meets e s' ⟨hs'.1, Nat.le_trans (Nat.add_le_add_right hs'.2 _) hs.ahead, nofun⟩).imp
    fun b _ ht => ht.of_le (hpace.isMoving b) hs'.2

/-- Behind a parser that goes on, the next one has moved, and need not go on itself. -/
theorem meets_of_advances (hs : s.Stands e.text n m c) (hs' : Pace.advances.Holds e.text s s')
    (hq : Reads n true false staying q) : (q e s').Meets e.text s pace' :=
  have hahead : s'.ahead e.text + 1 ≤ n :=
    Nat.le_trans hs'.2 (Nat.le_trans (Nat.le_add_right _ _) hs.ahead)
  (hq.meets e s' ⟨hs'.1, hahead, nofun⟩).imp fun b _ ht =>
    Pace.holds_of_lt (hpace.isMoving b) ht.1 (Nat.lt_of_le_of_lt ht.2 hs'.2)

end Behind

/-- What follows a parser that does not go back begins at an unknown token. -/
theorem Reads.stay_bind [h : Reads n m c staying p] [Moving pace']
    (hf : ∀ a, Reads n m false pace' (f a)) : Reads n m c pace' (p >>= f) where
  meets e s hs := meets_bind (h.meets e s hs) fun a _ hs' => meets_of_stays hs hs' (hf a)

/-- What follows a parser that goes on has moved. -/
theorem Reads.advance_bind [h : Reads n m c advancing p] [Moving pace']
    (hf : ∀ a, Reads n true false staying (f a)) : Reads n m c pace' (p >>= f) where
  meets e s hs := meets_bind (h.meets e s hs) fun a _ hs' => meets_of_advances hs hs' (hf a)

/-- Behind a test that succeeds, the token is known. -/
theorem Reads.test_bind {p : Parser Bool} {f : Bool → Parser β} [h : Reads n m c testing p]
    (htrue : Reads n m true pace' (f true)) (hfalse : Reads n m c pace' (f false)) :
    Reads n m c pace' (p >>= f) where
  meets e s hs := meets_bind (h.meets e s hs) fun b s' hs' => by
    have htoken : s'.token = s.token := by
      cases b with
      | true => exact hs'.1
      | false => exact hs'
    have hahead : s'.ahead e.text + m.toNat ≤ n := by
      simpa only [State.ahead, htoken] using hs.ahead
    cases b with
    | true =>
      exact (htrue.meets e s' ⟨htoken ▸ hs.fits, hahead, fun _ => htoken ▸ hs'.2⟩).imp
        fun _ _ ht => ht.congr htoken
    | false =>
      exact (hfalse.meets e s' ⟨htoken ▸ hs.fits, hahead, htoken ▸ hs.covers⟩).imp
        fun _ _ ht => ht.congr htoken

/-- A condition that ends with a test. Where it fails, the token may be known all the same. -/
theorem Reads.and_test_bind {x : Bool} {p : Parser Bool} {q r : Parser β}
    [Reads n m c testing p] (hq : Reads n m true pace' q) (hr : ∀ c, Reads n m c pace' r) :
    Reads n m c pace' (p >>= fun b => if (x && b) = true then q else r) := by
  refine .test_bind ?_ ?_
  · split
    · exact hq
    · exact hr true
  · rw [Bool.and_false]
    exact hr c

/-- The kind of the current token tells whether it is known. -/
theorem Reads.kind_bind {f : TokenKind → Parser β} (hf : ∀ k, Reads n m k.covers pace' (f k)) :
    Reads n m c pace' (kind >>= f) where
  meets e s hs := (hf s.token.kind).meets e s ⟨hs.fits, hs.ahead, id⟩

/-- A word that is not empty was read off the current token. -/
theorem Reads.keyword_bind {f : String → Parser β}
    (hf : ∀ w c, (w ≠ "" → c = true) → Reads n m c pace' (f w)) :
    Reads n m c pace' (keyword >>= f) where
  meets e s hs := by
    obtain ⟨w, hw, hcovers⟩ :
        ∃ w, keyword e s = .ok w s ∧ (w ≠ "" → s.token.kind.covers = true) := by
      refine ⟨_, rfl, fun hne => ?_⟩
      cases hk : s.token.kind with
      | word => rfl
      | _ => exact absurd (by rw [hk]) hne
    rw [bind_apply, hw]
    exact (hf w s.token.kind.covers hcovers).meets e s ⟨hs.fits, hs.ahead, id⟩

/-- A parser that looks at its token may be told for each token alone. -/
theorem Reads.of_token {f : Token → Parser β}
    (hf : ∀ e s, s.Stands e.text n m c → (f s.token e s).Meets e.text s pace') :
    Reads n m c pace' (token >>= f) :=
  ⟨hf⟩

/-- What follows a parser that found something has moved. -/
theorem Reads.find_bind {p : Parser (Option α)} {f : Option α → Parser β}
    [h : Reads n m c finding p] [Moving pace']
    (hsome : ∀ a, Reads n true false staying (f (some a)))
    (hnone : Reads n m false pace' (f none)) : Reads n m c pace' (p >>= f) where
  meets e s hs := meets_bind (h.meets e s hs) fun a s' hs' => by
    cases a with
    | none => exact meets_of_stays hs hs' hnone
    | some a => exact meets_of_advances hs hs' (hsome a)

/-- What follows a parser that read something has moved. -/
theorem Reads.consume_bind {p : Parser Bool} {f : Bool → Parser β}
    (h : Reads n m c consuming p) [hpace : Moving pace']
    (htrue : Reads n true false staying (f true))
    (hfalse : Reads n m false pace' (f false)) : Reads n m c pace' (p >>= f) where
  meets e s hs := meets_bind (h.meets e s hs) fun b s' hs' => by
    cases b with
    | false => exact meets_of_stays hs hs' hfalse
    | true => exact meets_of_advances hs hs' htrue

/-! ### Conditions -/

/-- The value of a condition is known. -/
class Decided (x : Bool) (v : Bool) : Prop where
  eq : x = v

section Decided

variable {x y : Bool}

instance decided_true : Decided true true := ⟨rfl⟩

instance decided_false : Decided false false := ⟨rfl⟩

instance decided_and_left [h : Decided x false] : Decided (x && y) false :=
  ⟨by rw [h.eq, Bool.false_and]⟩

instance decided_and_right [h : Decided y false] : Decided (x && y) false :=
  ⟨by rw [h.eq, Bool.and_false]⟩

instance decided_and [h : Decided x true] [h' : Decided y true] : Decided (x && y) true :=
  ⟨by rw [h.eq, h'.eq, Bool.and_self]⟩

instance decided_or_left [h : Decided x true] : Decided (x || y) true :=
  ⟨by rw [h.eq, Bool.true_or]⟩

instance decided_or_right [h : Decided y true] : Decided (x || y) true :=
  ⟨by rw [h.eq, Bool.or_true]⟩

instance decided_or [h : Decided x false] [h' : Decided y false] : Decided (x || y) false :=
  ⟨by rw [h.eq, h'.eq, Bool.or_self]⟩

instance decided_not_true [h : Decided x true] : Decided (!x) false :=
  ⟨by rw [h.eq, Bool.not_true]⟩

instance decided_not_false [h : Decided x false] : Decided (!x) true :=
  ⟨by rw [h.eq, Bool.not_false]⟩

end Decided

/-! ### The rules as instances

A sequence is taken apart from the left, by the rule that says most of what follows: first the
rules for tests, then those for parsers that stay at their token, that go on, and that only do not
go back. What is nested on the left of a sequence is moved out before. -/

instance (priority := 2000) reads_bind_assoc {g : β → Parser γ} {pace : γ → Pace}
    [h : Reads n m c pace (p >>= fun a => f a >>= g)] : Reads n m c pace (p >>= f >>= g) := by
  rw [bind_assoc]
  exact h

instance (priority := 2000) reads_pure_bind {a : α} [h : Reads n m c pace' (f a)] :
    Reads n m c pace' (pure a >>= f) :=
  h

instance (priority := 2000) reads_fail_bind : Reads n m c pace' (fail >>= f) :=
  ⟨fun _ _ _ => trivial⟩

instance (priority := 400) reads_bind_of_testing {p : Parser Bool} {f : Bool → Parser β}
    [Reads n m c testing p] [h : Reads n m true pace' (f true)]
    [h' : Reads n m c pace' (f false)] : Reads n m c pace' (p >>= f) :=
  .test_bind h h'

instance (priority := 300) reads_bind_of_resting [Reads n m c resting p]
    [h : ∀ a, Reads n m c pace' (f a)] : Reads n m c pace' (p >>= f) :=
  .rest_bind h

instance (priority := 200) reads_bind_of_advancing [Reads n m c advancing p] [Moving pace']
    [h : ∀ a, Reads n true false staying (f a)] : Reads n m c pace' (p >>= f) :=
  .advance_bind h

instance (priority := 100) reads_bind_of_staying [Reads n m c staying p] [Moving pace']
    [h : ∀ a, Reads n m false pace' (f a)] : Reads n m c pace' (p >>= f) :=
  .stay_bind h

instance (priority := 20) reads_staying_of_resting [h : Reads n m c resting p] :
    Reads n m c staying p where
  meets e s hs := (h.meets e s hs).imp fun _ _ ht => ht.stays hs.fits

instance (priority := 10) reads_staying_of_advancing [h : Reads n m c advancing p] :
    Reads n m c staying p where
  meets e s hs := (h.meets e s hs).imp fun _ _ ht => ht.stays hs.fits

instance (priority := 10) reads_repeating_of_advancing {p : Parser (Step σ ρ)}
    [h : Reads n m c advancing p] : Reads n m c repeating p where
  meets e s hs := (h.meets e s hs).imp fun a _ ht => by
    cases a with
    | again => exact ht
    | done => exact ht.stays hs.fits

/-- At a known token, a parser that stays there is a test. -/
instance (priority := 20) reads_testing_of_resting {p : Parser Bool}
    [h : Reads n m true resting p] : Reads n m true testing p where
  meets e s hs := (h.meets e s hs).imp fun b _ ht => by
    cases b with
    | true => exact ⟨ht, hs.covers rfl⟩
    | false => exact ht

instance (priority := 20) reads_resting_of_testing {p : Parser Bool} [h : Reads n m c testing p] :
    Reads n m c resting p where
  meets e s hs := (h.meets e s hs).imp fun b _ ht => by
    cases b with
    | true => exact ht.1
    | false => exact ht

instance reads_pure {a : α} : Reads n m c resting (pure a : Parser α) := ⟨fun _ _ _ => rfl⟩

instance reads_pure_false : Reads n m c testing (pure false : Parser Bool) := ⟨fun _ _ _ => rfl⟩

instance reads_pure_done {r : ρ} : Reads n m c repeating (pure (.done r) : Parser (Step σ ρ)) :=
  ⟨fun _ _ hs => ⟨hs.fits, Nat.le_refl _⟩⟩

instance reads_pure_consuming : Reads n m c consuming (pure false : Parser Bool) :=
  ⟨fun _ _ hs => ⟨hs.fits, Nat.le_refl _⟩⟩

instance reads_pure_none : Reads n m c finding (pure none : Parser (Option α)) :=
  ⟨fun _ _ hs => ⟨hs.fits, Nat.le_refl _⟩⟩

instance reads_fail : Reads n m c pace (fail : Parser α) := ⟨fun _ _ _ => trivial⟩

section Conditions

variable {x : Bool} {d : Decidable (x = true)} {q : Parser α}

instance (priority := 1100) reads_if_true [hx : Decided x true] [h : Reads n m c pace p] :
    Reads n m c pace (if x = true then p else q) := by
  rwa [if_pos hx.eq]

instance (priority := 1100) reads_if_false [hx : Decided x false] [h : Reads n m c pace q] :
    Reads n m c pace (if x = true then p else q) := by
  rwa [if_neg (by rw [hx.eq]; decide)]

instance reads_if {x : Prop} {d : Decidable x} [h : Reads n m c pace p]
    [h' : Reads n m c pace q] : Reads n m c pace (if x then p else q) := by
  split
  · exact h
  · exact h'

instance (priority := 1100) reads_if_bind_true [hx : Decided x true]
    [h : Reads n m c pace' (p >>= f)] :
    Reads n m c pace' ((if x = true then p else q) >>= f) := by
  rwa [if_pos hx.eq]

instance (priority := 1100) reads_if_bind_false [hx : Decided x false]
    [h : Reads n m c pace' (q >>= f)] :
    Reads n m c pace' ((if x = true then p else q) >>= f) := by
  rwa [if_neg (by rw [hx.eq]; decide)]

end Conditions

/-! ### Parsers that stay at their token -/

instance reads_environment : Reads n m c resting environment := ⟨fun _ _ _ => rfl⟩

instance reads_getState : Reads n m c resting getState := ⟨fun _ _ _ => rfl⟩

instance reads_context : Reads n m c resting context := ⟨fun _ _ _ => rfl⟩

instance reads_token : Reads n m c resting token := ⟨fun _ _ _ => rfl⟩

instance reads_kind : Reads n m c resting kind := ⟨fun _ _ _ => rfl⟩

instance reads_start : Reads n m c resting start := ⟨fun _ _ _ => rfl⟩

instance reads_spanFrom {i : Nat} : Reads n m c resting (spanFrom i) := ⟨fun _ _ _ => rfl⟩

instance reads_onNewLine : Reads n m c resting onNewLine := ⟨fun _ _ _ => rfl⟩

instance reads_isTyped : Reads n m c resting isTyped := ⟨fun _ _ _ => rfl⟩

instance reads_isMarkup : Reads n m c resting isMarkup := ⟨fun _ _ _ => rfl⟩

instance reads_atEnd : Reads n m c resting atEnd := ⟨fun _ _ _ => rfl⟩

instance reads_flaw : Reads n m c resting flaw := ⟨fun _ _ _ => rfl⟩

instance reads_flawIf {b : Bool} : Reads n m c resting (flawIf b) := ⟨fun _ _ _ => rfl⟩

instance reads_noteOpenSpread {i : Nat} : Reads n m c resting (noteOpenSpread i) :=
  ⟨fun _ _ _ => rfl⟩

/-- A change of the state that keeps the token leaves the parser there. -/
theorem Reads.modifyState {u : State → State} (hu : ∀ s, (u s).token = s.token) :
    Reads n m c resting (modifyState u) :=
  ⟨fun _ s _ => hu s⟩

instance reads_within {g : Context → Context} [h : Reads n m c pace p] :
    Reads n m c pace (within g p) where
  meets e s hs := h.meets { e with context := g e.context } s hs

instance reads_lookahead [h : Reads n m c staying p] : Reads n m c resting (lookahead p) where
  meets e s hs := by
    have hp := h.meets e s hs
    unfold lookahead
    cases h : p e s with
    | ok | fail => rfl
    | exhausted => rwa [h] at hp

/-- Looking ahead leaves the parser at its token. -/
theorem Reads.ahead {p : Parser Bool} (h : Reads n m c staying p) :
    Reads n m c resting (ahead p) := by
  unfold Parser.ahead
  infer_instance

instance reads_ahead {p : Parser Bool} [h : Reads n m c staying p] :
    Reads n m c resting (ahead p) :=
  .ahead h

/-- An attempt comes back to where it began unless it succeeds. -/
theorem meets_attempt {pace' : Option α → Pace} {e : Environment} {s : State}
    (hp : (p e s).Meets e.text s pace)
    (hsome : ∀ a t, (pace a).Holds e.text s t → (pace' (some a)).Holds e.text s t)
    (hnone : ∀ k, (pace' none).Holds e.text s { s with notArrow := k }) :
    (attempt p e s).Meets e.text s pace' := by
  unfold attempt
  cases h : p e s with
  | ok a t => exact hsome a t (by rwa [h] at hp)
  | fail k => exact hnone k
  | exhausted => rwa [h] at hp

instance reads_attempt [h : Reads n m c advancing p] : Reads n m c finding (attempt p) where
  meets e s hs := meets_attempt (h.meets e s hs) (fun _ _ ht => ht) fun _ =>
    ⟨hs.fits, Nat.le_refl _⟩

instance reads_attempt_of_staying [h : Reads n m c staying p] :
    Reads n m c staying (attempt p) where
  meets e s hs := meets_attempt (h.meets e s hs) (fun _ _ ht => ht) fun _ =>
    ⟨hs.fits, Nat.le_refl _⟩

/-! ### Tests of the current token -/

/-- A condition on the current token that neither the end nor an invalid token meets is a test. -/
theorem Reads.of_reply {p : Parser Bool} {b : Environment → State → Bool}
    (hp : ∀ e s, p e s = .ok (b e s) s) (heof : ∀ e s, s.token.kind = .eof → b e s = false)
    (hinvalid : ∀ e s, s.token.kind = .invalid → b e s = false) : Reads n m c testing p where
  meets e s _ := by
    rw [hp]
    cases hb : b e s with
    | false => exact rfl
    | true =>
      refine ⟨rfl, ?_⟩
      cases hk : s.token.kind with
      | eof => exact absurd hb (by simp [heof e s hk])
      | invalid => exact absurd hb (by simp [hinvalid e s hk])
      | _ => rfl

instance reads_atPunct {p : String} : Reads n m c testing (atPunct p) :=
  .of_reply (fun _ _ => rfl) (fun _ _ h => by rw [h]) fun _ _ h => by rw [h]

instance reads_atAnyPunct {ps : List String} : Reads n m c testing (atAnyPunct ps) :=
  .of_reply (fun _ _ => rfl) (fun _ _ h => by rw [h]) fun _ _ h => by rw [h]

instance reads_atWord {w : String} : Reads n m c testing (atWord w) :=
  .of_reply (fun _ _ => rfl) (fun _ _ h => by rw [h]) fun _ _ h => by rw [h]

instance reads_atAnyWord {ws : List String} : Reads n m c testing (atAnyWord ws) :=
  .of_reply (fun _ _ => rfl) (fun _ _ h => by rw [h]) fun _ _ h => by rw [h]

instance reads_atIdentifier : Reads n m c testing atIdentifier :=
  .of_reply (fun _ _ => rfl) (fun _ _ h => by rw [h]) fun _ _ h => by rw [h]

instance reads_atName : Reads n m c testing atName :=
  .of_reply (fun _ _ => rfl) (fun _ _ h => by rw [h]) fun _ _ h => by rw [h]

instance reads_atString : Reads n m c testing atString :=
  .of_reply (fun _ _ => rfl) (fun _ _ h => by rw [h]) fun _ _ h => by rw [h]

instance reads_atNumber : Reads n m c testing atNumber :=
  .of_reply (fun _ _ => rfl) (fun _ _ h => by rw [h]) fun _ _ h => by rw [h]

instance reads_atPrivate : Reads n m c testing atPrivate :=
  .of_reply (fun _ _ => rfl) (fun _ _ h => by rw [h]) fun _ _ h => by rw [h]

instance reads_atTemplate : Reads n m c testing atTemplate :=
  .of_reply (fun _ _ => rfl) (fun _ _ h => by rw [h]) fun _ _ h => by rw [h]

/-! ### Parsers that go on -/

/-- A lexer whose tokens fit the text and do not begin before the position they are read from. -/
class Lexes (lex : Array Char → Nat → Token) : Prop where
  fits : ∀ cs i, (lex cs i).Fits cs
  le_start : ∀ cs i, i ≤ (lex cs i).start

instance lexes_token : Lexes Lexer.token := ⟨Lexer.fits_token, Lexer.le_token⟩

instance lexes_markupChild : Lexes Lexer.markupChild :=
  ⟨Lexer.fits_markupChild, fun cs i => Nat.le_of_eq (Lexer.start_markupChild cs i).symm⟩

instance lexes_attributeValue : Lexes Lexer.attributeValue :=
  ⟨Lexer.fits_attributeValue, fun cs i => Lexer.start_attributeValue cs i ▸ Lexer.le_token cs i⟩

instance lexes_if {b : Bool} {lex lex' : Array Char → Nat → Token} [Lexes lex] [Lexes lex'] :
    Lexes (if b = true then lex else lex') := by
  split <;> infer_instance

section Bump

variable {lex : Array Char → Nat → Token}

/-- A known token has characters, which are left behind. -/
instance reads_bumpWith [h : Lexes lex] : Reads n m true advancing (bumpWith lex) where
  meets e s hs := by
    have hcovered := hs.fits.covered (hs.covers rfl)
    have hstart := h.le_start e.text s.token.stop
    refine ⟨h.fits .., ?_⟩
    simp only [State.ahead]
    omega

instance reads_bumpWith_of_unknown [h : Lexes lex] : Reads n m c staying (bumpWith lex) where
  meets e s hs := by
    have hordered := hs.fits.ordered
    have hstart := h.le_start e.text s.token.stop
    refine ⟨h.fits .., ?_⟩
    simp only [State.ahead]
    omega

end Bump

instance reads_bump : Reads n m true advancing bump := reads_bumpWith

instance reads_bump_of_unknown : Reads n m c staying bump := reads_bumpWith_of_unknown

instance reads_next {p : Parser Bool} [Reads n m false staying p] :
    Reads n m c resting (next p) := by
  unfold next
  infer_instance

instance reads_nextOnLine {p : Parser Bool} [Reads n m false staying p] :
    Reads n m c resting (nextOnLine p) := by
  unfold nextOnLine
  infer_instance

section Eat

variable {w : String} {f : Bool → Parser β} {q : Parser β} [Moving pace']

/-- What follows a punctuator has moved, if it is there. -/
theorem Reads.eatPunct_bind (htrue : Reads n true false staying (f true))
    (hfalse : Reads n m c pace' (f false)) : Reads n m c pace' (eatPunct w >>= f) := by
  unfold eatPunct
  infer_instance

/-- What follows a word has moved, if it is there. -/
private theorem Reads.eatWord_bind (htrue : Reads n true false staying (f true))
    (hfalse : Reads n m c pace' (f false)) : Reads n m c pace' (eatWord w >>= f) := by
  unfold eatWord
  infer_instance

instance (priority := 500) reads_eatPunct_bind [h : Reads n true false staying (f true)]
    [h' : Reads n m c pace' (f false)] : Reads n m c pace' (eatPunct w >>= f) :=
  .eatPunct_bind h h'

instance (priority := 500) reads_eatWord_bind [h : Reads n true false staying (f true)]
    [h' : Reads n m c pace' (f false)] : Reads n m c pace' (eatWord w >>= f) :=
  .eatWord_bind h h'

instance reads_eatPunct : Reads n m c staying (eatPunct w) := by
  unfold eatPunct
  infer_instance

instance reads_eatWord : Reads n m c staying (eatWord w) := by
  unfold eatWord
  infer_instance

/-- Where nothing depends on whether a token was read, there are no cases. -/
instance (priority := 600) reads_eatPunct_then [h : Reads n m false pace' q] :
    Reads n m c pace' (eatPunct w >>= fun _ => q) :=
  .stay_bind fun _ => h

instance (priority := 600) reads_eatWord_then [h : Reads n m false pace' q] :
    Reads n m c pace' (eatWord w >>= fun _ => q) :=
  .stay_bind fun _ => h

instance reads_expectPunct : Reads n m c advancing (expectPunct w) := by
  unfold expectPunct
  infer_instance

instance reads_expectWord : Reads n m c advancing (expectWord w) := by
  unfold expectWord
  infer_instance

end Eat

instance reads_name : Reads n m c advancing name := by
  unfold name
  refine .kind_bind fun k => ?_
  split <;> infer_instance

instance reads_identifier : Reads n m c advancing identifier := by
  unfold identifier
  infer_instance

instance reads_stringLiteral : Reads n m c advancing stringLiteral := by
  unfold stringLiteral
  refine .kind_bind fun k => ?_
  split <;> infer_instance

instance reads_canEnd : Reads n m c resting canEnd := by
  unfold canEnd
  infer_instance

instance reads_semicolon : Reads n m c staying semicolon := by
  unfold semicolon
  infer_instance

/-! ### Tokens read again -/

/-- The current token is replaced by one that begins with the same character. What follows stands
where it stood, at a token that is known if the new one is (`c`). -/
theorem meets_setToken_bind {f : Unit → Parser β} {e : Environment} {s : State} {t : Token}
    [hpace : Moving pace'] (hs : s.Stands e.text n m true) (hstart : t.start = s.token.start)
    (hstop : t.start < t.stop) (hcovers : c = true → t.kind.covers = true)
    (hf : Reads n m c pace' (f ())) : ((setToken t >>= f) e s).Meets e.text s pace' := by
  have hlt : t.start < e.text.size := hstart ▸ (hs.fits.covered (hs.covers rfl)).1
  have hahead (b : Bool) :
      State.ahead e.text { s with token := t, flawed := b } = s.ahead e.text := by
    simp only [State.ahead, hstart]
  refine (hf.meets e { s with token := t, flawed := s.flawed || t.flawed }
    ⟨⟨Nat.le_of_lt hstop, fun _ => ⟨hlt, hstop⟩⟩, ?_, hcovers⟩).imp fun a _ ht =>
      ht.of_le (hpace.isMoving a) ?_
  · rw [hahead]
    exact hs.ahead
  · exact Nat.le_of_eq (hahead _)

/-- The current token is replaced by one that begins with the same character. -/
theorem meets_setToken {e : Environment} {s : State} {t : Token}
    (hs : s.Stands e.text n m true) (hstart : t.start = s.token.start) (hstop : t.start < t.stop) :
    (setToken t e s).Meets e.text s staying := by
  rw [← bind_pure (setToken t)]
  exact meets_setToken_bind (c := false) hs hstart hstop nofun inferInstance

/-- A known token is read again in another way from its first character on. -/
theorem Reads.reread_bind {lex : Array Char → Nat → Lexer.Lexeme} {f : Unit → Parser β}
    [Moving pace'] (hlex : ∀ {cs i}, i < cs.size → i < (lex cs i).stop)
    (hf : Reads n m false pace' (f ())) :
    Reads n m true pace' (token >>= fun t => environment >>= fun e =>
      setToken (Lexer.reread t (lex e.text t.start)) >>= f) where
  meets _ _ hs :=
    meets_setToken_bind (c := false) hs rfl (hlex (hs.fits.covered (hs.covers rfl)).1) nofun hf

/-! ### Loops -/

/-- A loop goes round at most as often as characters lie ahead. -/
theorem meets_loopFuel {step : σ → Parser (Step σ ρ)} (h : ∀ a, Reads n m false repeating (step a))
    {e : Environment} (fuel : Nat) (a : σ) (s : State) (hs : s.Stands e.text n m c)
    (hfuel : s.ahead e.text < fuel) : (loopFuel step fuel a e s).Meets e.text s staying := by
  induction fuel generalizing a s c with
  | zero => omega
  | succ fuel ih =>
    refine meets_bind ((h a).meets e s ⟨hs.fits, hs.ahead, nofun⟩) fun b s' hs' => ?_
    cases b with
    | done r => exact hs'
    | again b =>
      have hahead : s'.ahead e.text + m.toNat ≤ n :=
        Nat.le_trans (Nat.add_le_add_right (Nat.le_of_lt hs'.2) _) hs.ahead
      have hrest : (loopFuel step fuel b e s').Meets e.text s' staying :=
        ih (c := false) b s' ⟨hs'.1, hahead, nofun⟩
          (Nat.lt_of_lt_of_le hs'.2 (Nat.le_of_lt_succ hfuel))
      exact hrest.imp fun _ _ ht => ⟨ht.1, Nat.le_trans ht.2 (Nat.le_of_lt hs'.2)⟩

private theorem ahead_lt_fuel (cs : Array Char) (s : State) : s.ahead cs < cs.size + 1 :=
  Nat.lt_succ_of_le (Nat.sub_le _ _)

/-- A loop does not exhaust its bound if each round that is repeated goes on. -/
theorem Reads.loop {step : σ → Parser (Step σ ρ)} {a : σ}
    (h : ∀ a, Reads n m false repeating (step a)) : Reads n m c staying (Parser.loop step a) where
  meets e s hs := meets_loopFuel h _ a s hs (Nat.lt_succ_of_lt (ahead_lt_fuel e.text s))

instance reads_loop {step : σ → Parser (Step σ ρ)} {a : σ}
    [h : ∀ a, Reads n m false repeating (step a)] : Reads n m c staying (loop step a) :=
  .loop h

/-- A loop goes on if each of its steps does, since there is a first one. -/
theorem Reads.loop_of_advancing {step : σ → Parser (Step σ ρ)} {a : σ}
    (h : ∀ a, Reads n m false advancing (step a)) : Reads n m c advancing (Parser.loop step a) where
  meets e s hs := by
    change (loopFuel step (e.text.size + 1 + 1) a e s).Meets e.text s advancing
    refine meets_bind ((h a).meets e s ⟨hs.fits, hs.ahead, nofun⟩) fun b s' hs' => ?_
    cases b with
    | done r => exact hs'
    | again b =>
      have hahead : s'.ahead e.text + m.toNat ≤ n :=
        Nat.le_trans (Nat.add_le_add_right (Nat.le_of_lt hs'.2) _) hs.ahead
      have hrest : (loopFuel step (e.text.size + 1) b e s').Meets e.text s' staying :=
        meets_loopFuel (c := false) (fun a => inferInstance) _ b s' ⟨hs'.1, hahead, nofun⟩
          (ahead_lt_fuel e.text s')
      exact hrest.imp fun _ _ ht => ⟨ht.1, Nat.lt_of_le_of_lt ht.2 hs'.2⟩

instance reads_commaList {close : String} {item : Parser α}
    [∀ c, Reads n true c staying item] : Reads n true c staying (commaList close item) := by
  unfold commaList
  infer_instance

end Parser

end ComponentInsight.Script
