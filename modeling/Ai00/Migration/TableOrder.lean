import Ai00.Basic.KeyedRows
import Ai00.Basic.Peeling
import Ai00.Migration.SchemaModel

/-! # The order of missing tables

`_order_missing_tables` of `capability_v2/schema_sql.py`. A missing table is created after the missing
tables that its foreign keys reference. A key of a table to itself keeps the table from ever being
ready, so that a cycle is reported where there is none between distinct tables
(`ordersMissingTables_iff`).
-/

namespace Ai00.Migration

open KeyedRows

/-! ## `_order_missing_tables` -/

/-- The tables that the foreign keys of a table reference. -/
def TableSpec.references (table : TableSpec) : List Str :=
  (table.constraints.filter fun constraint => constraint.kind = .foreignKey).filterMap
    ConstraintSpec.referencedTable

/-- `SchemaPlanError` for tables that wait for one another. -/
def dependencyCycle (remaining : List Str) : Str :=
  "missing_table_dependency_cycle:".toList ++ [','].intercalate (remaining.mergeSort (· ≤ ·))

def referencesOf (byName : List TableSpec) (name : Str) : List Str :=
  (lookup TableSpec.name name byName).elim [] TableSpec.references

def orderMissingTables (tables : List TableSpec) : Except Str (List TableSpec) :=
  let byName := upsertAll TableSpec.name tables []
  let names := byName.map TableSpec.name
  match Peeling.peel (referencesOf byName) names.length names with
  | .error remaining => .error (dependencyCycle remaining)
  | .ok order => .ok (order.filterMap fun name => lookup TableSpec.name name byName)

/-! ## What it is for -/

def foreignKeys (tables : List TableSpec) : List (Str × Str) :=
  tables.flatMap fun table => ((table.references.filter fun name =>
    name ≠ table.name ∧ name ∈ tables.map TableSpec.name).map fun name => (table.name, name))

/-- Some tables are ordered so that each comes after the others that it references, or else a cycle is
reported, which there is exactly then. -/
structure OrdersMissingTables (tables : List TableSpec) : Prop where
  perm : ∀ ordered, orderMissingTables tables = .ok ordered → ordered.Perm tables
  after : ∀ ordered, orderMissingTables tables = .ok ordered →
    ordered.Pairwise fun earlier later => later.name ∉ earlier.references
  report : ∀ e, orderMissingTables tables = .error e →
    ∃ names ≠ [], names ⊆ tables.map TableSpec.name ∧ e = dependencyCycle names
  cyclic : (∃ e, orderMissingTables tables = .error e) ↔ ¬ Kahn.Acyclic (foreignKeys tables)

/-- No table of a list has a foreign key to itself. -/
def NoSelfReference (tables : List TableSpec) : Prop := ∀ table ∈ tables, table.name ∉ table.references

instance (tables : List TableSpec) : Decidable (NoSelfReference tables) :=
  inferInstanceAs (Decidable (∀ _ ∈ _, _))

/-! ## Tables by their names -/

variable {tables : List TableSpec} {table : TableSpec} {a b : Str}

theorem upsertAll_name (hnames : (tables.map TableSpec.name).Nodup) :
    upsertAll TableSpec.name tables [] = tables := by
  have hgo : ∀ more rows : List TableSpec, ((rows ++ more).map TableSpec.name).Nodup →
      upsertAll TableSpec.name more rows = rows ++ more := by
    intro more
    induction more with
    | nil =>
      intro rows _
      exact (List.append_nil rows).symm
    | cons table more ih =>
      intro rows hnodup
      have hnew : ∀ r ∈ rows, r.name ≠ table.name := by
        rw [List.map_append, List.nodup_append] at hnodup
        exact fun r hr => hnodup.2.2 _ (List.mem_map_of_mem hr) _ (by simp)
      calc upsertAll TableSpec.name (table :: more) rows
          = upsertAll TableSpec.name more (upsert TableSpec.name table rows) := rfl
        _ = upsertAll TableSpec.name more (rows ++ [table]) := by rw [upsert_of_new hnew]
        _ = rows ++ [table] ++ more := ih _ (by rwa [List.append_assoc])
        _ = rows ++ table :: more := List.append_assoc _ _ _
  exact hgo tables [] hnames

theorem referencesOf_name (hnames : (tables.map TableSpec.name).Nodup) (htable : table ∈ tables) :
    referencesOf tables table.name = table.references := by
  rw [referencesOf, lookup_of_mem hnames htable]
  rfl

theorem mem_foreignKeys : (a, b) ∈ foreignKeys tables
    ↔ ∃ table ∈ tables, table.name = a ∧ b ∈ table.references ∧ b ≠ a ∧ b ∈ tables.map TableSpec.name := by
  simp only [foreignKeys, List.mem_flatMap, List.mem_map (f := fun name : Str => (_, name)),
    List.mem_filter, decide_eq_true_eq, Prod.mk.injEq]
  constructor
  · rintro ⟨table, htable, name, ⟨hrefs, hne, hin⟩, rfl, rfl⟩
    exact ⟨table, htable, rfl, hrefs, hne, hin⟩
  · rintro ⟨table, htable, rfl, hrefs, hne, hin⟩
    exact ⟨table, htable, b, ⟨hrefs, hne, hin⟩, rfl, rfl⟩

/-- The links that the rounds go by are the foreign keys between distinct tables and those of tables
to themselves. -/
theorem mem_links_names (hnames : (tables.map TableSpec.name).Nodup) :
    (a, b) ∈ Peeling.links (referencesOf tables) (tables.map TableSpec.name)
      ↔ (a, b) ∈ foreignKeys tables ∨ a = b ∧ ∃ table ∈ tables, table.name = a ∧ a ∈ table.references := by
  rw [Peeling.mem_links, mem_foreignKeys]
  constructor
  · rintro ⟨ha, hb, hrefs⟩
    obtain ⟨table, htable, rfl⟩ := List.mem_map.mp ha
    rw [referencesOf_name hnames htable] at hrefs
    by_cases hself : b = table.name
    · exact .inr ⟨hself.symm, table, htable, rfl, hself ▸ hrefs⟩
    · exact .inl ⟨table, htable, rfl, hrefs, hself, hb⟩
  · rintro (⟨table, htable, rfl, hrefs, -, hb⟩ | ⟨rfl, table, htable, rfl, hrefs⟩)
    · exact ⟨List.mem_map_of_mem htable, hb, by rwa [referencesOf_name hnames htable]⟩
    · exact ⟨List.mem_map_of_mem htable, List.mem_map_of_mem htable, by rwa [referencesOf_name hnames htable]⟩

/-! ## When the order is right -/

theorem acyclic_links_iff (hnames : (tables.map TableSpec.name).Nodup) :
    Kahn.Acyclic (Peeling.links (referencesOf tables) (tables.map TableSpec.name))
      ↔ NoSelfReference tables ∧ Kahn.Acyclic (foreignKeys tables) := by
  constructor
  · intro hacyclic
    refine ⟨fun table htable hself => ?_, fun a hcycle => hacyclic a ?_⟩
    · exact hacyclic table.name
        (.single ((mem_links_names hnames).mpr (.inr ⟨rfl, table, htable, rfl, hself⟩)))
    · exact Relation.TransGen.mono
        (fun a b hkey => (mem_links_names hnames).mpr (.inl hkey)) a a hcycle
  · rintro ⟨hself, hacyclic⟩ a hcycle
    refine hacyclic a (Relation.TransGen.mono (fun a b hlink => ?_) a a hcycle)
    rcases (mem_links_names hnames).mp hlink with hkey | ⟨-, table, htable, rfl, hrefs⟩
    · exact hkey
    · exact absurd hrefs (hself table htable)

theorem orderMissingTables_of_nodup (hnames : (tables.map TableSpec.name).Nodup) : orderMissingTables tables
      = match Peeling.peel (referencesOf tables) (tables.map TableSpec.name).length
          (tables.map TableSpec.name) with
        | .error remaining => .error (dependencyCycle remaining)
        | .ok order => .ok (order.filterMap fun name => lookup TableSpec.name name tables) := by
  rw [orderMissingTables, upsertAll_name hnames]

/-- An order is returned exactly where no table references itself and no cycle is there. -/
theorem orderMissingTables_ok_iff (hnames : (tables.map TableSpec.name).Nodup) :
    (∃ ordered, orderMissingTables tables = .ok ordered)
      ↔ NoSelfReference tables ∧ Kahn.Acyclic (foreignKeys tables) := by
  rw [← acyclic_links_iff hnames, ← Peeling.peel_ok_iff hnames, orderMissingTables_of_nodup hnames]
  cases Peeling.peel (referencesOf tables) (tables.map TableSpec.name).length
      (tables.map TableSpec.name) with
  | error remaining => simp
  | ok order => simp

theorem filterMap_lookup_perm (hnames : (tables.map TableSpec.name).Nodup) {order : List Str}
    (horder : order.Perm (tables.map TableSpec.name)) :
    (order.filterMap fun name => lookup TableSpec.name name tables).Perm tables := by
  have hback : ∀ rows ⊆ tables,
      (rows.map TableSpec.name).filterMap (fun name => lookup TableSpec.name name tables) = rows := by
    intro rows hsub
    induction rows with
    | nil => rfl
    | cons row rows ih =>
      have hrow := lookup_of_mem hnames (hsub List.mem_cons_self)
      have hrows := ih fun r hr => hsub (.tail _ hr)
      rw [List.map_cons]
      simp only [List.filterMap_cons, hrow, hrows]
  calc (order.filterMap fun name => lookup TableSpec.name name tables).Perm
        ((tables.map TableSpec.name).filterMap fun name => lookup TableSpec.name name tables) :=
        horder.filterMap _
    _ = tables := hback tables fun r hr => hr

theorem pairwise_filterMap_lookup (hnames : (tables.map TableSpec.name).Nodup) {order : List Str}
    (hpairs : order.Pairwise fun a b => b ∉ referencesOf tables a) :
    (order.filterMap fun name => lookup TableSpec.name name tables).Pairwise
      fun earlier later => later.name ∉ earlier.references := by
  rw [List.pairwise_filterMap]
  refine hpairs.imp fun {a b} hnot earlier hearlier later hlater hrefs => hnot ?_
  obtain rfl := key_of_lookup hearlier
  obtain rfl := key_of_lookup hlater
  rwa [referencesOf_name hnames (mem_of_lookup hearlier)]

/-- **Missing tables are ordered, or a cycle is reported rightly**, exactly where none references
itself, unless the others are in a cycle. -/
theorem ordersMissingTables_iff (tables : List TableSpec) (hnames : (tables.map TableSpec.name).Nodup) :
    OrdersMissingTables tables ↔ NoSelfReference tables ∨ ¬ Kahn.Acyclic (foreignKeys tables) := by
  have hok := orderMissingTables_ok_iff hnames
  constructor
  · intro h
    by_contra hcond
    push Not at hcond
    obtain ⟨hself, hacyclic⟩ := hcond
    have hreport : ¬ ∃ e, orderMissingTables tables = .error e := fun he => h.cyclic.mp he hacyclic
    cases hrun : orderMissingTables tables with
    | error e => exact hreport ⟨e, hrun⟩
    | ok ordered => exact hself (hok.mp ⟨ordered, hrun⟩).1
  · intro hcond
    refine ⟨fun ordered hrun => ?_, fun ordered hrun => ?_, fun e hrun => ?_, ?_⟩
    · rw [orderMissingTables_of_nodup hnames] at hrun
      split at hrun
      case h_1 => exact nomatch hrun
      case h_2 order hpeel =>
        obtain rfl := Except.ok.inj hrun
        exact filterMap_lookup_perm hnames (Peeling.peel_ok hnames hpeel).1
    · rw [orderMissingTables_of_nodup hnames] at hrun
      split at hrun
      case h_1 => exact nomatch hrun
      case h_2 order hpeel =>
        obtain rfl := Except.ok.inj hrun
        exact pairwise_filterMap_lookup hnames (Peeling.peel_ok hnames hpeel).2.1
    · rw [orderMissingTables_of_nodup hnames] at hrun
      split at hrun
      case h_2 => exact nomatch hrun
      case h_1 remaining hpeel =>
        obtain ⟨hne, hsub, -⟩ := Peeling.peel_error le_rfl hpeel
        exact ⟨remaining, hne, hsub, (Except.error.inj hrun).symm⟩
    · constructor
      · rintro ⟨e, hrun⟩ hacyclic
        obtain ⟨ordered, hordered⟩ := hok.mpr ⟨hcond.resolve_right (not_not_intro hacyclic), hacyclic⟩
        rw [hrun] at hordered
        exact nomatch hordered
      · intro hcyclic
        cases hrun : orderMissingTables tables with
        | error e => exact ⟨e, rfl⟩
        | ok ordered => exact absurd (hok.mp ⟨ordered, hrun⟩).2 hcyclic

/-! ## A table that references itself -/

/-- A table `t` whose one foreign key references a table. -/
def tableReferencing (name : String) : TableSpec where
  name := ['t']
  constraints := [{ name := "fk".toList, kind := .foreignKey, referencedTable := some name.toList }]

theorem ordersMissingTables_iff_existing : OrdersMissingTables [tableReferencing "u"] :=
  (ordersMissingTables_iff [tableReferencing "u"] (by decide)).mpr (.inl (by decide))

theorem selfReference_reported :
    orderMissingTables [tableReferencing "t"] = .error (dependencyCycle [['t']])
      ∧ ¬ OrdersMissingTables [tableReferencing "t"] := by
  have hrun : orderMissingTables [tableReferencing "t"] = .error (dependencyCycle [['t']]) := by
    decide +kernel
  refine ⟨hrun, fun h => ?_⟩
  refine h.cyclic.mp ⟨_, hrun⟩ ?_
  have hnone : foreignKeys [tableReferencing "t"] = [] := by decide
  intro a hcycle
  rw [hnone] at hcycle
  cases hcycle with
  | single hkey => cases hkey
  | tail _ hkey => cases hkey

end Ai00.Migration
