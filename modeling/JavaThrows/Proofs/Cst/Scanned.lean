import JavaThrows.Cst.Token

set_option autoImplicit false

/-!
# How a source is scanned

The scanner counts fuel and threads the offset, the comments that wait for a token and the open
embedded expressions. `Scanned` tells its steps without the fuel, as what is left to scan behind a
front of the source, so that a fact about all tokens is shown by one case for each kind of piece.
Main statement: `scan_scanned`.
-/

namespace JavaThrows.Cst

open Text

/-- Scanning the source behind `front`, where `comments` wait for the token to come and `last` is
    the end of the token before, comes to `s`. -/
inductive Scanned (source : List Char) :
    List Char → Nat → List Comment → List Hole → Scan → Prop
  | done {last : Nat} {comments : List Comment} {holes : List Hole} :
    Scanned source source last comments holes ⟨[], comments⟩
  | blank {front cs : List Char} {c : Char} {last : Nat} {comments : List Comment}
    {holes : List Hole} {s : Scan} :
    source = front ++ c :: cs → piece holes (c :: cs) = some .blank →
    Scanned source (front ++ [c]) last comments holes s →
    Scanned source front last comments holes s
  | comment {front cs : List Char} {c : Char} {block : Bool} {length last : Nat}
    {comments : List Comment} {holes : List Hole} {s : Scan} :
    source = front ++ c :: cs → piece holes (c :: cs) = some (.comment block length) →
    Scanned source (front ++ (c :: cs).take length) last
      (comments ++
        [⟨block, ⟨byteLength front, byteLength (front ++ (c :: cs).take length)⟩⟩]) holes s →
    Scanned source front last comments holes s
  | token {front cs : List Char} {c : Char} {kind : TokenKind} {length last : Nat}
    {comments : List Comment} {holes holes' : List Hole} {s : Scan} :
    source = front ++ c :: cs → piece holes (c :: cs) = some (.token kind length holes') →
    Scanned source (front ++ (c :: cs).take length)
      (byteLength (front ++ (c :: cs).take length)) [] holes' s →
    Scanned source front last comments holes
      { s with tokens :=
          ⟨kind, String.ofList ((c :: cs).take length),
            ⟨byteLength front, byteLength (front ++ (c :: cs).take length)⟩, comments,
            byteLength front == last⟩ :: s.tokens }

theorem scanFrom_nil_scanned {fuel last : Nat} {comments : List Comment} {holes : List Hole}
    {front : List Char} {s : Scan}
    (h : scanFrom fuel (byteLength front) last comments holes [] = .ok s) :
    Scanned front front last comments holes s := by
  rw [scanFrom] at h
  split at h
  · cases h
    exact .done
  · simp at h

/-- Scanning goes on from one place of the source to the next one. -/
theorem scanFrom_scanned {fuel last : Nat} {comments : List Comment} {holes : List Hole}
    {front rest : List Char} {s : Scan}
    (h : scanFrom fuel (byteLength front) last comments holes rest = .ok s) :
    Scanned (front ++ rest) front last comments holes s := by
  induction fuel generalizing last comments holes front rest s with
  | zero =>
    cases rest with
    | nil =>
      rw [List.append_nil]
      exact scanFrom_nil_scanned h
    | cons c cs => simp [scanFrom] at h
  | succ fuel ih =>
    cases rest with
    | nil =>
      rw [List.append_nil]
      exact scanFrom_nil_scanned h
    | cons c cs =>
      have hcut (length : Nat) : front ++ c :: cs =
          (front ++ (c :: cs).take length) ++ (c :: cs).drop length := by simp
      rw [scanFrom] at h
      split at h
      · simp at h
      · next hpiece =>
        have hfront : byteLength (front ++ [c]) = byteLength front + c.utf8Size := by
          simp [byteLength_append, byteLength]
        rw [← hfront] at h
        refine .blank rfl hpiece ?_
        simpa using ih h
      · next block length hpiece =>
        rw [← byteLength_append] at h
        refine .comment rfl hpiece ?_
        rw [hcut length]
        exact ih h
      · next kind length holes' hpiece =>
        dsimp only at h
        rw [← byteLength_append] at h
        cases hnext : scanFrom fuel (byteLength (front ++ (c :: cs).take length))
            (byteLength (front ++ (c :: cs).take length)) [] holes'
            ((c :: cs).drop length) with
        | error e => simp [hnext, Except.map] at h
        | ok after =>
          simp only [hnext, Except.map, Except.ok.injEq] at h
          subst h
          refine .token rfl hpiece ?_
          rw [hcut length]
          exact ih hnext

/-- **A source is scanned from its first character on**, a byte order mark apart. -/
theorem scan_scanned {source : List Char} {s : Scan} (h : scan source = .ok s) :
    ∃ front holes, Scanned source front (byteLength front) [] holes s := by
  unfold scan at h
  split at h
  · next rest =>
    have hmark : byteLength ['\ufeff'] = 3 := by decide
    rw [← hmark] at h
    exact ⟨_, _, scanFrom_scanned h⟩
  · have hempty : byteLength [] = 0 := rfl
    rw [← hempty] at h
    exact ⟨_, _, scanFrom_scanned h⟩

theorem Scanned.exists_append {source front : List Char} {last : Nat} {comments : List Comment}
    {holes : List Hole} {s : Scan} (h : Scanned source front last comments holes s) :
    ∃ rest, source = front ++ rest := by
  cases h with
  | done => exact ⟨[], (List.append_nil _).symm⟩
  | blank hsource | comment hsource | token hsource => exact ⟨_, hsource⟩

end JavaThrows.Cst
