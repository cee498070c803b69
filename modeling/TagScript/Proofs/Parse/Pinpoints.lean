import TagScript.Proofs.Parse.Plain

/-!
# Errors at the First Impossible Token

A parser that goes from the left and never looks further than one token notices an error as early
as it can be noticed: the tokens in front of the error go on to a phrase, and with the token at the
error they go on to none. `Pinpoints` says this of one parser and one list of tokens, in a form
that parsers can be put together with.

A phrase is read in front of other tokens, which may go on with it, so `Pinpoints` is relative to
the kinds of tokens that may follow. Where nothing of a phrase has been read yet, what completes it
is also the first thing behind the phrase in front; `first` are the kinds that may stand there.
-/

namespace TagScript.Parse

/-- A parser with plain replies. -/
abbrev Reader (α : Type) := List Token → Except ParseError (α × List Token)

/-- The tokens are at their end, or a token of one of the kinds comes next. -/
def Ahead (kinds : Token.Kind → Prop) (ts : List Token) : Prop :=
  ∀ t ∈ ts.head?, kinds t.kind

/-- Every kind. -/
def anyKind (_ : Token.Kind) : Prop := True

theorem anyKind_all (kind : Token.Kind) : anyKind kind := trivial

variable {α β : Type} {first mid follow : Token.Kind → Prop} {f : Reader α} {t : Token}
  {ts : List Token}

section Ahead

@[simp]
theorem ahead_nil : Ahead first [] := by
  intro t h
  cases h

@[simp]
theorem ahead_cons : Ahead first (t :: ts) ↔ first t.kind := by
  simp [Ahead]

/-- More kinds may come next. -/
theorem Ahead.mono (h : Ahead first ts) (hmono : ∀ kind, first kind → follow kind) :
    Ahead follow ts :=
  fun t ht => hmono t.kind (h t ht)

/-- Only the next token counts. -/
theorem Ahead.of_head? {k : List Token} (h : Ahead first ts) (hk : k.head? = ts.head?) :
    Ahead first k := by
  unfold Ahead
  rw [hk]
  exact h

end Ahead

/-- Some tokens are read as a whole phrase in front of anything that may follow. -/
def Completes (first follow : Token.Kind → Prop) (f : Reader α) : Prop :=
  ∃ (more : List Token) (a : α), ∀ k, Ahead follow k →
    f (more ++ k) = .ok (a, k) ∧ Ahead first (more ++ k)

/-- The parser reads the front of the tokens whatever stands behind the next one, or it fails at
the first token that no phrase has there. -/
inductive Pinpoints (first follow : Token.Kind → Prop) (f : Reader α) (ts : List Token) : Prop
  /-- The phrase is read in front of the same next token, and of any that may follow. -/
  | reads (a : α) (front rest : List Token) (split : ts = front ++ rest)
      (same : ∀ k, k.head? = rest.head? ∨ Ahead follow k → f (front ++ k) = .ok (a, k))
      (absent : front = [] → ∀ kind, follow kind → first kind)
  /-- The error is about the next token, whatever stands behind it, and some other tokens in its
  place complete the phrase. -/
  | rejects (e : ParseError) (front rest : List Token) (split : ts = front ++ rest)
      (found : e.found = rest.head?)
      (same : ∀ k, k.head? = rest.head? → f (front ++ k) = .error e)
      (viable : Completes (fun kind => front = [] → first kind) follow fun k => f (front ++ k))

section Completes

/-- An absent phrase. -/
theorem Completes.nil {a : α} (h : ∀ k, Ahead follow k → f k = .ok (a, k)) :
    Completes follow follow f :=
  ⟨[], a, fun k hk => ⟨h k hk, hk⟩⟩

/-- A phrase of a single token. -/
theorem Completes.token {a : α} (t : Token) (ht : first t.kind)
    (h : ∀ k, Ahead follow k → f (t :: k) = .ok (a, k)) : Completes first follow f :=
  ⟨[t], a, fun k hk => ⟨h k hk, ahead_cons.mpr ht⟩⟩

/-- A phrase behind its first token. -/
theorem Completes.cons {g : Reader α} (t : Token) (ht : first t.kind) (h : ∀ k, f (t :: k) = g k)
    (hg : Completes mid follow g) : Completes first follow f := by
  obtain ⟨more, a, hmore⟩ := hg
  refine ⟨t :: more, a, fun k hk => ⟨?_, ahead_cons.mpr ht⟩⟩
  rw [List.cons_append, h]
  exact (hmore k hk).1

/-- One phrase behind another. -/
theorem Completes.bind {g : α × List Token → Except ParseError (β × List Token)}
    (hf : Completes first mid f) (hg : ∀ a, Completes mid follow fun k => g (a, k)) :
    Completes first follow fun k => f k >>= g := by
  obtain ⟨left, a, hleft⟩ := hf
  obtain ⟨right, b, hright⟩ := hg a
  refine ⟨left ++ right, b, fun k hk => ?_⟩
  obtain ⟨hb, hmid⟩ := hright k hk
  obtain ⟨ha, hfirst⟩ := hleft (right ++ k) hmid
  rw [List.append_assoc]
  refine ⟨?_, hfirst⟩
  exact (congrArg (· >>= g) ha).trans hb

/-- Another tree for the same phrase. -/
theorem Completes.map {g : α × List Token → Except ParseError (β × List Token)} {b : α → β}
    (hf : Completes first follow f) (hg : ∀ a k, g (a, k) = .ok (b a, k)) :
    Completes first follow fun k => f k >>= g :=
  hf.bind fun a => .nil fun k _ => hg a k

/-- More kinds may come first. -/
theorem Completes.mono {first' : Token.Kind → Prop} (hf : Completes first follow f)
    (h : ∀ kind, first kind → first' kind) : Completes first' follow f := by
  obtain ⟨more, a, hmore⟩ := hf
  exact ⟨more, a, fun k hk => ⟨(hmore k hk).1, (hmore k hk).2.mono h⟩⟩

/-- What is completed depends on the replies only. -/
theorem Completes.congr {g : Reader α} (hg : Completes first follow g) (h : ∀ k, f k = g k) :
    Completes first follow f := by
  rw [funext h]
  exact hg

end Completes

section Pinpoints

/-- What is pinpointed depends on the replies only. -/
theorem Pinpoints.congr {g : Reader α} (hg : Pinpoints first follow g ts) (h : ∀ k, f k = g k) :
    Pinpoints first follow f ts := by
  rw [funext h]
  exact hg

/-- A phrase that may be absent: it is absent in front of the kinds in `stop`, and every other
token starts one. -/
theorem Pinpoints.optional (stop : Token.Kind → Prop) {a : α}
    (habsent : ∀ k, Ahead stop k → f k = .ok (a, k)) (hfollow : ∀ kind, follow kind → stop kind)
    (hpresent : ∀ t rest, ts = t :: rest → ¬ stop t.kind → Pinpoints follow follow f (t :: rest)) :
    Pinpoints follow follow f ts := by
  by_cases hts : Ahead stop ts
  · refine .reads a [] ts rfl ?_ fun _ _ hkind => hkind
    rintro k (hk | hk)
    · exact habsent k (hts.of_head? hk)
    · exact habsent k (hk.mono hfollow)
  · cases ts with
    | nil => exact absurd ahead_nil hts
    | cons t rest => exact hpresent t rest rfl fun ht => hts (ahead_cons.mpr ht)

/-- A phrase of a single token. -/
theorem Pinpoints.token {a : α} (h : ∀ k, f (t :: k) = .ok (a, k)) :
    Pinpoints first follow f (t :: ts) :=
  .reads a [t] ts rfl (fun k _ => h k) fun hnil => absurd hnil (List.cons_ne_nil t [])

/-- A phrase whose first token is read at once. -/
theorem Pinpoints.cons {g : Reader α} (h : ∀ k, f (t :: k) = g k)
    (hg : Pinpoints mid follow g ts) : Pinpoints first follow f (t :: ts) := by
  have hcons (front k : List Token) : f (t :: front ++ k) = g (front ++ k) := h (front ++ k)
  cases hg with
  | reads a front rest split same absent =>
    refine .reads a (t :: front) rest (congrArg (t :: ·) split) ?_ ?_
    · intro k hk
      rw [hcons]
      exact same k hk
    · exact fun hnil => absurd hnil (List.cons_ne_nil t front)
  | rejects e front rest split found same viable =>
    refine .rejects e (t :: front) rest (congrArg (t :: ·) split) found ?_ ?_
    · intro k hk
      rw [hcons]
      exact same k hk
    · refine (viable.mono ?_).congr (hcons front)
      exact fun _ _ hnil => absurd hnil (List.cons_ne_nil t front)

/-- A phrase is missing at the end of the tokens. -/
theorem Pinpoints.fail_nil {problem : Problem} (h : f [] = fail problem [])
    (hf : Completes first follow f) : Pinpoints first follow f [] := by
  refine .rejects ⟨problem, none⟩ [] [] rfl rfl ?_ (hf.mono fun _ hkind _ => hkind)
  intro k hk
  rw [List.head?_eq_none_iff.mp hk]
  exact h

/-- The next token starts no phrase. -/
theorem Pinpoints.fail_cons {e : ParseError} (he : e.found = some t)
    (h : ∀ k, f (t :: k) = .error e) (hf : Completes first follow f) :
    Pinpoints first follow f (t :: ts) := by
  refine .rejects e [] (t :: ts) rfl he ?_ (hf.mono fun _ hkind _ => hkind)
  intro k hk
  obtain ⟨more, rfl⟩ := List.head?_eq_some_iff.mp hk
  exact h more

/-- A phrase whose parser is chosen by its first token, which is not read at once. -/
theorem Pinpoints.peek {g : Reader α} (hg : Pinpoints mid follow g (t :: ts))
    (h : ∀ k, f (t :: k) = g (t :: k)) (hf : Completes first follow f)
    (hlt : ∀ a rest, g (t :: ts) = .ok (a, rest) → rest.length < (t :: ts).length) :
    Pinpoints first follow f (t :: ts) := by
  cases hg with
  | reads a front rest split same absent =>
    cases front with
    | nil =>
      -- the phrase is not empty
      have hread : g (t :: ts) = .ok (a, t :: ts) := same _ (.inl (congrArg List.head? split))
      exact absurd (hlt a _ hread) (Nat.lt_irrefl _)
    | cons u front =>
      obtain ⟨rfl, -⟩ := List.cons_eq_cons.mp split
      refine .reads a (t :: front) rest split ?_ fun hnil => absurd hnil (List.cons_ne_nil t front)
      exact fun k hk => (h (front ++ k)).trans (same k hk)
  | rejects e front rest split found same viable =>
    cases front with
    | nil =>
      rw [List.nil_append] at split
      rw [← split] at found same
      exact .fail_cons found (fun k => (h k).trans (same _ rfl)) hf
    | cons u front =>
      obtain ⟨rfl, -⟩ := List.cons_eq_cons.mp split
      refine .rejects e (t :: front) rest split found ?_ ?_
      · exact fun k hk => (h (front ++ k)).trans (same k hk)
      · refine (viable.mono ?_).congr fun k => h (front ++ k)
        exact fun _ _ hnil => absurd hnil (List.cons_ne_nil t front)

/-- One phrase behind another. -/
theorem Pinpoints.bind {g : α × List Token → Except ParseError (β × List Token)}
    (hf : Pinpoints first mid f ts) (hmore : ∀ a, Completes mid follow fun k => g (a, k))
    (hg : ∀ a rest, f ts = .ok (a, rest) → Pinpoints mid follow (fun k => g (a, k)) rest) :
    Pinpoints first follow (fun k => f k >>= g) ts := by
  cases hf with
  | rejects e front rest split found same viable =>
    refine .rejects e front rest split found ?_ (viable.bind hmore)
    intro k hk
    exact congrArg (· >>= g) (same k hk)
  | reads a front rest split same absent =>
    subst split
    -- the first parser stops where it did: at a token that the second one has read, or else in
    -- front of what the second one stops at
    have hseq {right more k : List Token} (split : rest = right ++ more)
        (hk : right = [] → k.head? = more.head? ∨ Ahead mid k) :
        f (front ++ right ++ k) >>= g = g (a, right ++ k) := by
      rw [List.append_assoc, same (right ++ k), ok_bind]
      cases right with
      | nil =>
        rw [split]
        exact hk rfl
      | cons u right =>
        rw [split]
        exact .inl rfl
    cases hg a rest (same rest (.inl rfl)) with
    | reads b right more split same' absent' =>
      refine .reads b (front ++ right) more (by rw [split, List.append_assoc]) ?_ ?_
      · intro k hk
        refine (hseq split fun hright => ?_).trans (same' k hk)
        exact hk.imp_right fun hfollow => hfollow.mono (absent' hright)
      · intro hnil kind hkind
        obtain ⟨hfront, hright⟩ := List.append_eq_nil_iff.mp hnil
        exact absent hfront kind (absent' hright kind hkind)
    | rejects e right more split found same' viable =>
      refine .rejects e (front ++ right) more (by rw [split, List.append_assoc]) found ?_ ?_
      · intro k hk
        exact (hseq split fun _ => .inl hk).trans (same' k hk)
      · obtain ⟨tail, b, htail⟩ := viable
        refine ⟨tail, b, fun k hk => ?_⟩
        obtain ⟨hb, hmid⟩ := htail k hk
        refine ⟨?_, hmid.mono fun kind hkind hnil => ?_⟩
        · refine (hseq split fun hright => .inr ?_).trans hb
          exact hmid.mono fun _ hkind => hkind hright
        · obtain ⟨hfront, hright⟩ := List.append_eq_nil_iff.mp hnil
          exact absent hfront kind (hkind hright)

/-- A phrase and one behind it that may be absent. -/
theorem Pinpoints.bind_optional {g : α × List Token → Except ParseError (β × List Token)}
    (stop : Token.Kind → Prop) {b : α → β} (hf : Pinpoints first follow f ts)
    (habsent : ∀ a k, Ahead stop k → g (a, k) = .ok (b a, k))
    (hfollow : ∀ kind, follow kind → stop kind)
    (hpresent : ∀ a t rest, f ts = .ok (a, t :: rest) → ¬ stop t.kind →
      Completes follow follow (fun k => g (a, k)) →
      Pinpoints follow follow (fun k => g (a, k)) (t :: rest)) :
    Pinpoints first follow (fun k => f k >>= g) ts := by
  have hmore (a : α) : Completes follow follow fun k => g (a, k) :=
    .nil fun k hk => habsent a k (hk.mono hfollow)
  refine hf.bind hmore fun a rest ha => ?_
  refine .optional stop (habsent a) hfollow fun t more hrest ht => ?_
  exact hpresent a t more (hrest ▸ ha) ht (hmore a)

/-- Another tree for the same phrase. -/
theorem Pinpoints.map {g : α × List Token → Except ParseError (β × List Token)} {b : α → β}
    (hf : Pinpoints first follow f ts) (hg : ∀ a k, g (a, k) = .ok (b a, k)) :
    Pinpoints first follow (fun k => f k >>= g) ts := by
  refine hf.bind (fun a => .nil fun k _ => hg a k) fun a rest _ => ?_
  exact .reads (b a) [] rest rfl (fun k _ => hg a k) fun _ _ hkind => hkind

/-- What is left is part of what was given. -/
theorem Pinpoints.rest_le {a : α} {rest : List Token} (h : Pinpoints first follow f ts)
    (ha : f ts = .ok (a, rest)) : rest.length ≤ ts.length := by
  cases h with
  | reads b front more split same absent =>
    have hb := same more (.inl rfl)
    rw [← split, ha] at hb
    cases hb
    rw [split, List.length_append]
    exact Nat.le_add_left _ _
  | rejects e front more split found same viable =>
    have he := same more rfl
    rw [← split, ha] at he
    cases he

end Pinpoints

/-- A phrase can be completed from its start, and errors in up to `n` tokens are at the first
impossible one. -/
structure Precise (n : Nat) (first follow : Token.Kind → Prop) (f : Reader α) : Prop where
  /-- There is a phrase. -/
  completes : Completes first follow f
  /-- Errors are at the first impossible token. -/
  pinpoints : ∀ ts, ts.length ≤ n → Pinpoints first follow f ts

section Precise

variable {n : Nat} {g : α × List Token → Except ParseError (β × List Token)}

/-- How precise a reader is depends on its replies only. -/
theorem Precise.congr {g : Reader α} (hg : Precise n first follow g) (h : ∀ k, f k = g k) :
    Precise n first follow f := by
  rw [funext h]
  exact hg

/-- One phrase behind another. -/
theorem Precise.bind (hf : Precise n first mid f)
    (hg : ∀ a, Precise n mid follow fun k => g (a, k)) :
    Precise n first follow fun k => f k >>= g := by
  refine ⟨hf.completes.bind fun a => (hg a).completes, fun ts hts => ?_⟩
  have hfront := hf.pinpoints ts hts
  refine hfront.bind (fun a => (hg a).completes) fun a rest ha => ?_
  exact (hg a).pinpoints rest (Nat.le_trans (hfront.rest_le ha) hts)

/-- Another tree for the same phrase. -/
theorem Precise.map {b : α → β} (hf : Precise n first follow f)
    (hg : ∀ a k, g (a, k) = .ok (b a, k)) : Precise n first follow fun k => f k >>= g :=
  ⟨hf.completes.map hg, fun ts hts => (hf.pinpoints ts hts).map hg⟩

end Precise

end TagScript.Parse
