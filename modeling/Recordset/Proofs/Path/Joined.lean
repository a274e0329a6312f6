import Recordset.Proofs.Made
import Recordset.Proofs.Path.Failing
set_option autoImplicit false

/-!
# One path behind another

Two paths are joined by a dot between them.  The joined path goes through the names of the first
one and then through those of the second one (`Path.route_joined`), so that it leads to what the
second one leads to from where the first one leads (`Path.value_joined`).  This is not so when one
of the two names the value that it starts from: behind another path such a spelling is a name like
any other.

A path is followed or found missing, unless it breaks; a joined path then breaks with its first
part.  A default is given exactly in the place of what is missing (`Path.resolve_eq`).

`Path.resolve_joined` is the main statement.
-/

namespace Recordset.Path

variable {p q : String}

/-! ## The names of a joined path -/

theorem names_joined (p q : String) : names (p ++ "." ++ q) = names p ++ names q := by
  have hchars : (p ++ "." ++ q).toList = p.toList ++ '.' :: q.toList := by
    simp
  unfold names dotted
  rw [hchars, List.splitOn_append_cons_self, List.map_append]

/-- There is a dot in a joined path. -/
theorem joined_ne {path : String} (hdot : '.' ∉ path.toList) : p ++ "." ++ q ≠ path := by
  rintro rfl
  simp at hdot

/-- A joined path goes through the names of its first part, and then through those of its second
part. -/
theorem route_joined (hp : p ≠ "") (hself : p ≠ itself) (hq : q ≠ "") (hself' : q ≠ itself) :
    route (p ++ "." ++ q) = route p ++ route q := by
  rw [route_eq hp hself, route_eq hq hself',
    route_eq (joined_ne (by decide)) (joined_ne (by decide)), names_joined]

/-! ## Following one path behind another -/

/-- From what is missing everything is missing. -/
theorem follow_missing (segments : List Value) : follow segments .missing = pure .missing := by
  cases segments with
  | nil => rfl
  | cons segment rest => exact Action.ext_execute fun s => rfl

theorem value_missing (path : String) : value .missing (.str path) = pure .missing := by
  rw [value_eq_follow, follow_missing]

/-- Segments are followed one list after another. -/
theorem follow_append (segments more : List Value) (v : Value) :
    follow (segments ++ more) v = follow segments v >>= follow more := by
  induction segments generalizing v with
  | nil => rfl
  | cons segment rest ih =>
    refine Action.ext_execute fun s => ?_
    rw [List.cons_append, follow, follow, Action.execute_bind, Action.execute_bind,
      Action.execute_bind]
    cases (step v segment).execute s with
    | mk r t =>
      cases r with
      | error e => rfl
      | ok next =>
        cases next with
        | missing => exact congrArg (Action.execute · t) (follow_missing more).symm
        | _ => exact (congrArg (Action.execute · t) (ih _)).trans (Action.execute_bind _ _ t)

/-- A joined path leads to what its second part leads to from where its first part leads. -/
theorem value_joined (hp : p ≠ "") (hself : p ≠ itself) (hq : q ≠ "") (hself' : q ≠ itself)
    (item : Value) :
    value item (.str (p ++ "." ++ q)) = value item (.str p) >>= fun v => value v (.str q) := by
  have hsecond : (fun v => value v (.str q)) = follow ((route q).map .str) :=
    funext fun v => value_eq_follow v q
  rw [hsecond, value_eq_follow, value_eq_follow, route_joined hp hself hq hself', List.map_append,
    follow_append]

/-! ## Defaults -/

/-- The value at a path that does not name the item itself, or the default in the place of what is
missing. -/
theorem resolve_eq (hp : p ≠ "") (hself : p ≠ itself) (item default : Value) :
    resolve item (.str p) default =
      value item (.str p) >>= fun v => pure (if v.isMissing then default else v) := by
  obtain ⟨name, rest, hroute⟩ : ∃ name rest, route p = name :: rest :=
    List.exists_cons_of_ne_nil (route_eq hp hself ▸ names_ne_nil p)
  refine Action.ext_execute fun s => ?_
  rw [value_eq_follow]
  unfold resolve
  rw [Action.execute_bind, Action.execute_look, split_eq, hroute, List.map_cons]
  dsimp only
  rw [Action.execute_bind, Action.execute_bind]
  cases (follow (.str name :: rest.map .str) item).execute s with
  | mk r t =>
    cases r with
    | error e => rfl
    | ok v => cases v <;> rfl

/-- Whatever has a joined path has its first part. -/
theorem has_of_has_joined (hp : p ≠ "") (hself : p ≠ itself) (hq : q ≠ "") (hself' : q ≠ itself)
    {item : Value} {s u : State}
    (hjoined : (has item (.str (p ++ "." ++ q))).execute s = (.ok true, u)) :
    ∃ t, (has item (.str p)).execute s = (.ok true, t) := by
  obtain ⟨w, u', hvalue, hthere⟩ := Action.execute_bind_ok hjoined
  rw [value_joined hp hself hq hself'] at hvalue
  obtain ⟨v, t, hfirst, hsecond⟩ := Action.execute_bind_ok hvalue
  refine ⟨t, ?_⟩
  rw [execute_has_of_value hfirst]
  cases v with
  | missing =>
    rw [value_missing] at hsecond
    cases hsecond
    cases hthere
  | _ => rfl

/-- A default is given exactly when nothing is there, or when it is the value that is there. -/
theorem same_default_iff (v default : Value) :
    (if v.isMissing then default else v).same default = true ↔
      v.isMissing = true ∨ v.same default = true := by
  cases hmissing : v.isMissing with
  | true => simp [Value.same_refl]
  | false => simp

/-! ## Main statement -/

/-- Following a written path fails exactly where it breaks.  A joined path leads to what its second
part leads to from where its first part leads, and breaks where that one does; in particular it
leads nowhere when its first part does.  An item has a path when the value at it is not the marker
for what is missing, so that it has the first part of every joined path that it has, and every
field that holds null; and where a path does not break, a default is given exactly when the item
does not have the path, or when the value there is the default itself. -/
theorem resolve_joined {p q : String} (hp : p ≠ "") (hself : p ≠ itself) (hq : q ≠ "")
    (hself' : q ≠ itself) (item : Value) (s : State) :
    (∀ path default e, (∃ t, (resolve item (.str path) default).execute s = (.error e, t)) ↔
      Breaks s item (.str path) e) ∧
    value item (.str (p ++ "." ++ q)) = value item (.str p) >>= (fun v => value v (.str q)) ∧
    (∀ u, (has item (.str (p ++ "." ++ q))).execute s = (.ok true, u) →
      ∃ t, (has item (.str p)).execute s = (.ok true, t)) ∧
    ∀ v t, (value item (.str p)).execute s = (.ok v, t) →
      (v = .missing → (value item (.str (p ++ "." ++ q))).execute s = (.ok .missing, t)) ∧
      (v ≠ .missing →
        (value item (.str (p ++ "." ++ q))).execute s = (value v (.str q)).execute t) ∧
      (has item (.str p)).execute s = (.ok (!v.isMissing), t) ∧
      ∀ default, ∃ w, (resolve item (.str p) default).execute s = (.ok w, t) ∧
        (w.same default = true ↔
          (has item (.str p)).execute s = (.ok false, t) ∨ v.same default = true) := by
  refine ⟨fun path default e => execute_resolve_error_iff default,
    value_joined hp hself hq hself' item, fun u => has_of_has_joined hp hself hq hself',
    fun v t hfirst => ?_⟩
  have hjoined : (value item (.str (p ++ "." ++ q))).execute s = (value v (.str q)).execute t := by
    rw [value_joined hp hself hq hself', Action.execute_bind_of_ok hfirst]
  have hhas := execute_has_of_value hfirst
  refine ⟨?_, fun _ => hjoined, hhas, fun default => ?_⟩
  · rintro rfl
    rw [hjoined, value_missing]
    rfl
  · refine ⟨if v.isMissing then default else v, ?_, ?_⟩
    · rw [resolve_eq hp hself, Action.execute_bind_of_ok hfirst]
      rfl
    · rw [same_default_iff, hhas]
      cases v.isMissing <;> simp

/-- A record with a list, the last element of which is an object with a field that holds null. -/
def listedRecord : State where
  store := { cells := #[
    .policy {},
    .registry {},
    .dict [(.str "tags", .ref ⟨3⟩)],
    .list [.int 1, .ref ⟨4⟩],
    .object [("zip", .null)]] }

/-- The last element of the list is followed on to its field, which is there although it holds
null. -/
theorem resolve_listedRecord :
    ("tags.-1" ≠ "" ∧ "tags.-1" ≠ itself ∧ "zip" ≠ "" ∧ "zip" ≠ itself) ∧
    (value (.ref ⟨2⟩) (.str ("tags.-1" ++ "." ++ "zip"))).execute listedRecord =
      (value (.ref ⟨4⟩) (.str "zip")).execute listedRecord ∧
    (value (.ref ⟨4⟩) (.str "zip")).execute listedRecord = (.ok .null, listedRecord) ∧
    ∃ w, (resolve (.ref ⟨2⟩) (.str "tags.-1") .null).execute listedRecord = (.ok w, listedRecord) ∧
      w.same .null = false := by
  have hfirst : (value (.ref ⟨2⟩) (.str "tags.-1")).execute listedRecord =
      (.ok (.ref ⟨4⟩), listedRecord) := rfl
  obtain ⟨-, -, -, hvalue⟩ :=
    resolve_joined (p := "tags.-1") (q := "zip") (by decide) (by decide) (by decide) (by decide)
      (.ref ⟨2⟩) listedRecord
  obtain ⟨-, hthere, hhas, hdefault⟩ := hvalue _ _ hfirst
  obtain ⟨w, hw, hiff⟩ := hdefault .null
  refine ⟨by decide, hthere nofun, rfl, w, hw, Bool.eq_false_iff.mpr fun hsame => ?_⟩
  rw [hhas] at hiff
  cases hiff.mp hsame with
  | inl h => cases h
  | inr h => cases h

/-- An object whose only attribute fails to be computed, and a collection over a registry that
extends itself. -/
def brokenRecords : State where
  store := { cells := #[
    .policy {},
    .registry { parent := some ⟨1⟩ },
    .list [],
    .custom
      { name := "Gauge", written := "<gauge>", failing := [("level", .raised "ValueError" "")] } [],
    .collection {
      list := ⟨2⟩, validators := ⟨2⟩, policy := ⟨0⟩, registry := ⟨1⟩, generator := ⟨0⟩ }] }

/-- The path to the attribute breaks with the failure to compute it, and a path to an extension of
the collection with the search for it. -/
theorem resolve_brokenRecords :
    ((resolve (.ref ⟨3⟩) (.str "level") .null).execute brokenRecords).1 =
      .error (.raised "ValueError" "") ∧
    ((resolve (.ref ⟨4⟩) (.str "x") .null).execute brokenRecords).1 =
      .error (.fault .recursion) := by
  refine ⟨rfl, ?_⟩
  have hseeks : Collection.SeeksOn brokenRecords.store
      { list := ⟨2⟩, validators := ⟨2⟩, policy := ⟨0⟩, registry := ⟨1⟩, generator := ⟨0⟩ } "x" :=
    { notBuiltin := by decide, unset := rfl, visible := by decide +kernel, absent := rfl,
      endless := rfl }
  have hsplit : Path.split (.str "x") brokenRecords.store = .ok [.str "x"] := rfl
  have hbreaks : Breaks brokenRecords (.ref ⟨4⟩) (.str "x") (.fault .recursion) :=
    .follow hsplit (.here (.lookup rfl (.extension rfl rfl hseeks)))
  obtain ⟨t, hrun⟩ := resolve_of_breaks hbreaks .null
  rw [hrun]

end Recordset.Path
