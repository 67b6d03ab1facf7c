import Mathlib.Data.List.Count
import Soveren.Firewall.Plans
import Soveren.Storage.Idempotency

/-! A batch converges: the update of a plan brings every chain of the snapshot into the order the request asks
for, leaves the other rules as they were, and a second plan finds nothing to do. -/
namespace Soveren.Firewall
open Soveren

section Reading

/-- The snapshots list the host's chains: the rules that are read are the chain's rules, in canonical form. -/
def Views (host : Chains) (snapshots : List (String × String)) : Prop :=
  ∀ entry ∈ snapshots, ∃ raw rules, host entry.1 = some raw ∧
    readChain canonical entry.1 entry.2 = .ok rules ∧ raw.map form = rules.map some

theorem readChain_chain {f : Rule → Except Failure Rule} {chain snapshot : String} {rules : List Rule}
    (h : readChain f chain snapshot = .ok rules) : chain ∈ ["INPUT", "DOCKER-USER"] := by
  by_contra hchain
  rw [readChain, if_pos (.inl hchain)] at h
  cases h

/-- The chains that a plan starts from. -/
theorem readSnapshots_spec {host : Chains} {snapshots : List (String × String)} (h : Views host snapshots) :
    ∃ initial, readSnapshots snapshots = .ok initial ∧ Mirrors host initial ∧
      ∀ chain, (initial chain).isSome ↔ chain ∈ snapshots.map Prod.fst := by
  have hentries : ∃ entries : List (String × List Rule),
      (snapshots.mapM fun entry => do
        return (entry.1, ← readChain canonical entry.1 entry.2) : Except Failure _) = .ok entries ∧
      entries.map Prod.fst = snapshots.map Prod.fst ∧
      ∀ e ∈ entries, ∃ raw, host e.1 = some raw ∧ raw.map form = e.2.map some := by
    induction snapshots with
    | nil => exact ⟨[], rfl, rfl, fun e he => nomatch he⟩
    | cons entry snapshots ih =>
      obtain ⟨entries, hmap, hkeys, hraw⟩ := ih fun e he => h e (List.mem_cons_of_mem _ he)
      obtain ⟨raw, rules, hhost, hread, hforms⟩ := h entry List.mem_cons_self
      refine ⟨(entry.1, rules) :: entries, ?_, ?_, ?_⟩
      · rw [List.mapM_cons, hread, hmap]
        rfl
      · rw [List.map_cons, List.map_cons, hkeys]
      · intro e he
        obtain rfl | he := List.mem_cons.mp he
        · exact ⟨raw, hhost, hforms⟩
        · exact hraw e he
  obtain ⟨entries, hmap, hkeys, hraw⟩ := hentries
  refine ⟨fun chain => entries.lookup chain, ?_, ?_, ?_⟩
  · rw [readSnapshots, hmap]
    rfl
  · intro chain rules hlookup
    obtain ⟨l₁, l₂, hsplit, -⟩ := List.lookup_eq_some_iff.mp hlookup
    exact hraw (chain, rules) (hsplit ▸ List.mem_append_right _ List.mem_cons_self)
  · intro chain
    rw [List.lookup_isSome_iff, ← hkeys]
    simp [List.mem_map]

theorem Mirrors.unique {host a b : Chains} (ha : Mirrors host a) (hb : Mirrors host b) {chain : String}
    (hsome : (a chain).isSome ↔ (b chain).isSome) : a chain = b chain := by
  match hac : a chain, hbc : b chain with
  | none, none => rfl
  | none, some rb => simp [hac, hbc] at hsome
  | some ra, none => simp [hac, hbc] at hsome
  | some ra, some rb =>
    obtain ⟨raw, hraw, hra⟩ := ha chain ra hac
    obtain ⟨raw', hraw', hrb⟩ := hb chain rb hbc
    rw [hraw] at hraw'
    cases hraw'
    rw [List.map_injective_iff.mpr (Option.some_injective Rule) (hra.symm.trans hrb)]

end Reading

section Plan

/-- The rules of a request by their flag, with the chain and the canonical body of each. -/
structure Wanted where
  keeps : List (String × Rule)
  heads : List (String × Rule)
  drops : List (String × Rule)

/-- A request as its callers make it: the rules that have to be first come last, no rule is named twice, none
is also removed, and each passes the checks of the helper. -/
structure Batch (q : Request) (w : Wanted) : Prop where
  rules : ∃ keep head : List Rule, q.rules = keep.map (·, false) ++ head.map (·, true) ∧
    keep.mapM target = .ok w.keeps ∧ head.mapM target = .ok w.heads
  removals : q.removals.mapM target = .ok w.drops
  checked : ∀ rule ∈ q.rules.map Prod.fst ++ q.removals, checkRule rule = .ok ()
  distinct : (w.keeps ++ w.heads).Nodup
  apart : ∀ t ∈ w.keeps ++ w.heads, t ∉ w.drops

variable {q : Request} {w : Wanted}

theorem mapM_target {rules : List Rule} {ts : List (String × Rule)} (h : rules.mapM target = .ok ts) :
    List.Forall₂ (fun rule t => target rule = .ok t) rules ts := by
  induction rules generalizing ts with
  | nil => cases h; exact .nil
  | cons rule rules ih =>
    rw [List.mapM_cons] at h
    obtain ⟨t, ht, h⟩ := bind_eq_ok h
    obtain ⟨ts', hts, h⟩ := bind_eq_ok h
    cases h
    exact .cons ht (ih hts)

theorem exists_rule_of_mem {rules : List Rule} {ts : List (String × Rule)} (h : rules.mapM target = .ok ts)
    {t : String × Rule} (ht : t ∈ ts) : ∃ rule ∈ rules, target rule = .ok t := by
  have htargets := mapM_target h
  clear h
  induction htargets with
  | nil => cases ht
  | @cons rule u rules ts htarget hrest ih =>
    obtain rfl | ht := List.mem_cons.mp ht
    · exact ⟨rule, List.mem_cons_self, htarget⟩
    · obtain ⟨r, hr, hrt⟩ := ih ht
      exact ⟨r, List.mem_cons_of_mem _ hr, hrt⟩

/-- Every rule that is wanted, or wanted away, comes from a rule of the request. -/
theorem Batch.exists_rule (h : Batch q w) {t : String × Rule} (ht : t ∈ w.keeps ++ w.heads ++ w.drops) :
    ∃ rule ∈ q.rules.map Prod.fst ++ q.removals, target rule = .ok t := by
  obtain ⟨keep, head, hrules, hkeep, hhead⟩ := h.rules
  simp only [List.mem_append] at ht
  have hfst : q.rules.map Prod.fst = keep ++ head := by simp [hrules, Function.comp_def]
  rw [hfst]
  obtain (ht | ht) | ht := ht
  · obtain ⟨rule, hr, htarget⟩ := exists_rule_of_mem hkeep ht
    exact ⟨rule, List.mem_append_left _ (List.mem_append_left _ hr), htarget⟩
  · obtain ⟨rule, hr, htarget⟩ := exists_rule_of_mem hhead ht
    exact ⟨rule, List.mem_append_left _ (List.mem_append_right _ hr), htarget⟩
  · obtain ⟨rule, hr, htarget⟩ := exists_rule_of_mem h.removals ht
    exact ⟨rule, List.mem_append_right _ hr, htarget⟩

/-- The bodies of a batch are canonical. -/
theorem Batch.form_target (h : Batch q w) {host : Chains} {snapshots : List (String × String)}
    (hviews : Views host snapshots)
    (hchains : ∀ t ∈ w.keeps ++ w.heads ++ w.drops, t.1 ∈ snapshots.map Prod.fst) :
    ∀ t ∈ w.keeps ++ w.heads ++ w.drops, form t.2 = some t.2 := by
  intro t ht
  obtain ⟨rule, -, htarget⟩ := h.exists_rule ht
  obtain ⟨entry, hentry, hkey⟩ := List.mem_map.mp (hchains t ht)
  obtain ⟨raw, rules, -, hread, -⟩ := hviews entry hentry
  have hne : t.1 ≠ "--ctstate" := by
    intro heq
    have hmem := readChain_chain hread
    rw [hkey, heq] at hmem
    exact absurd hmem (by decide)
  exact form_of_target hne htarget

/-- What a plan computes on snapshots of the host. -/
theorem plan_spec {host : Chains} {snapshots : List (String × String)} (hviews : Views host snapshots)
    (hbatch : Batch q w) (hchains : ∀ t ∈ w.keeps ++ w.heads ++ w.drops, t.1 ∈ snapshots.map Prod.fst) :
    ∃ (initial : Chains) (s : Planned), readSnapshots snapshots = .ok initial ∧ Mirrors host initial ∧
      (∀ chain, (initial chain).isSome ↔ chain ∈ snapshots.map Prod.fst) ∧
      (∀ chain, s.current chain = (initial chain).map (arranged w.keeps w.heads w.drops chain)) ∧
      s.created = (w.keeps ++ w.heads).map (!present initial ·) ∧
      Replays host s.current s.commands ∧
      (∀ command ∈ s.commands, command.target ∈ w.heads ∨ command.target ∈ w.drops ∨
        command.target ∈ w.keeps ∧ present initial command.target = false) ∧
      plan q.rules q.removals snapshots =
        .ok (if ∀ chain ∈ snapshots.map Prod.fst, s.current chain = initial chain then ""
          else "*filter\n" ++ "\n".intercalate (s.commands.map Command.line) ++ "\nCOMMIT\n", s.created) := by
  obtain ⟨initial, hinitial, hmirror, hsome⟩ := readSnapshots_spec hviews
  obtain ⟨keep, head, hrules, hkeep, hhead⟩ := hbatch.rules
  obtain ⟨hkeeps, hheads, hdisjoint⟩ := List.nodup_append.mp hbatch.distinct
  have hform := hbatch.form_target hviews hchains
  have hisSome : ∀ t ∈ w.keeps ++ w.heads ++ w.drops, (initial t.1).isSome := fun t ht =>
    (hsome t.1).mpr (hchains t ht)
  have hmemKeep : ∀ t ∈ w.keeps, t ∈ w.keeps ++ w.heads ++ w.drops := fun t ht =>
    List.mem_append_left _ (List.mem_append_left _ ht)
  have hmemHead : ∀ t ∈ w.heads, t ∈ w.keeps ++ w.heads ++ w.drops := fun t ht =>
    List.mem_append_left _ (List.mem_append_right _ ht)
  have hmemDrop : ∀ t ∈ w.drops, t ∈ w.keeps ++ w.heads ++ w.drops := fun t ht =>
    List.mem_append_right _ ht
  have hstart : Replays host initial [] := ⟨host, rfl, hmirror⟩
  obtain ⟨s₁, hrun₁, hcurrent₁, hcreated₁, hreplay₁, hcommands₁⟩ :=
    planRules_spec false (mapM_target hkeep) hkeeps (fun t ht => hform t (hmemKeep t ht))
      (s := { current := initial, commands := [], created := [] })
      (fun t ht => hisSome t (hmemKeep t ht)) hstart
  have hsome₁ : ∀ chain, (s₁.current chain).isSome = (initial chain).isSome := by
    intro chain
    rw [hcurrent₁, foldl_place_false hkeeps, Option.isSome_map]
  have hpresent₁ : ∀ t ∈ w.heads, present s₁.current t = present initial t := by
    intro t ht
    rw [hcurrent₁, present_foldl_place fun hk => hdisjoint t hk t ht rfl]
  obtain ⟨s₂, hrun₂, hcurrent₂, hcreated₂, hreplay₂, hcommands₂⟩ :=
    planRules_spec true (mapM_target hhead) hheads (fun t ht => hform t (hmemHead t ht))
      (fun t ht => (hsome₁ t.1).trans (hisSome t (hmemHead t ht))) hreplay₁
  have hsome₂ : ∀ chain, (s₂.current chain).isSome = (initial chain).isSome := by
    intro chain
    rw [hcurrent₂, foldl_place_true hheads, Option.isSome_map, hsome₁]
  obtain ⟨s₃, hrun₃, hcurrent₃, hcreated₃, hreplay₃, hcommands₃⟩ :=
    planRemovals_spec (mapM_target hbatch.removals) (fun t ht => hform t (hmemDrop t ht))
      (fun t ht => (hsome₂ t.1).trans (hisSome t (hmemDrop t ht))) hreplay₂
  refine ⟨initial, s₃, hinitial, hmirror, hsome, ?_, ?_, hreplay₃, ?_, ?_⟩
  · intro chain
    rw [hcurrent₃, hcurrent₂, hcurrent₁, foldl_arranged hbatch.distinct hbatch.apart]
  · rw [hcreated₃, hcreated₂, hcreated₁, List.nil_append, List.map_append,
      List.map_congr_left fun t ht => congrArg not (hpresent₁ t ht)]
  · intro command hc
    obtain hc | hdrop := hcommands₃ command hc
    · obtain hc | ⟨hhead, -⟩ := hcommands₂ command hc
      · obtain hc | ⟨hkeep, hflag⟩ := hcommands₁ command hc
        · cases hc
        · exact .inr (.inr ⟨hkeep, hflag.resolve_left Bool.false_ne_true⟩)
      · exact .inl hhead
    · exact .inr (.inl hdrop)
  · have hrun : q.rules.foldlM planRule { current := initial, commands := [], created := [] } = .ok s₂ := by
      rw [hrules, List.foldlM_append, hrun₁]
      exact hrun₂
    have hkeys : (∀ chain ∈ snapshots.map Prod.fst, s₃.current chain = initial chain) ↔
        ∀ entry ∈ snapshots, s₃.current entry.1 = initial entry.1 := List.forall_mem_map
    rw [plan, hinitial]
    simp only [bind, Except.bind, hrun, hrun₃]
    by_cases hsame : ∀ entry ∈ snapshots, s₃.current entry.1 = initial entry.1
    · rw [if_pos hsame, if_pos (hkeys.mpr hsame)]
      rfl
    · rw [if_neg hsame, if_neg (mt hkeys.mp hsame)]
      rfl

end Plan

section Convergence
open scoped List

/-- A rule of a chain that the batch inserts or deletes: one that has to be first, a removal, or one that may stay
and was missing. -/
def touched (w : Wanted) (chain : String) (before : List Rule) (rule : Rule) : Bool :=
  match form rule with
  | none => false
  | some body => (chain, body) ∈ w.heads ∨ (chain, body) ∈ w.drops ∨
    (chain, body) ∈ w.keeps ∧ some body ∉ before.map form

/-- What a batch does to a chain. -/
structure Settled (w : Wanted) (chain : String) (before after : List Rule) : Prop where
  removed : ∀ body ∈ bodies w.drops chain, some body ∉ after.map form
  head : (bodies w.heads chain).reverse.map some <+: after.map form
  once : ∀ body ∈ bodies w.heads chain, (after.map form).count (some body) = 1
  kept : ∀ body ∈ bodies w.keeps chain, some body ∈ after.map form
  others : after.filter (!touched w chain before ·) = before.filter (!touched w chain before ·)

variable {q : Request} {w : Wanted}

theorem settled_of_arranged (hnodup : (w.keeps ++ w.heads).Nodup) (hapart : ∀ t ∈ w.keeps ++ w.heads, t ∉ w.drops)
    {chain : String} {before after rules : List Rule}
    (hafter : after.map form = (arranged w.keeps w.heads w.drops chain rules).map some)
    (hothers : after.filter (!touched w chain before ·) = before.filter (!touched w chain before ·)) :
    Settled w chain before after := by
  have hmem : ∀ body, some body ∈ after.map form ↔ body ∈ arranged w.keeps w.heads w.drops chain rules := by
    intro body
    rw [hafter]
    simp
  refine ⟨?_, ?_, ?_, ?_, hothers⟩
  · intro body hdrop
    rw [hmem, arranged, List.append_assoc, List.mem_append, List.mem_reverse, not_or]
    refine ⟨fun hhead => ?_, fun hrest => (not_mem_rest hnodup hapart hrest).2 hdrop⟩
    exact hapart _ (List.mem_append_right _ (mem_bodies.mp hhead)) (mem_bodies.mp hdrop)
  · rw [hafter, arranged, List.append_assoc, List.map_append]
    exact List.prefix_append _ _
  · intro body hhead
    have hheads := nodup_bodies (List.nodup_append.mp hnodup).2.1 chain
    rw [hafter, List.count_map_of_injective _ _ (Option.some_injective Rule), arranged, List.append_assoc,
      List.count_append, List.count_eq_zero_of_not_mem fun h => (not_mem_rest hnodup hapart h).1 hhead,
      List.count_reverse, List.count_eq_one_of_mem hheads hhead]
  · intro body hkeep
    rw [hmem]
    exact mem_arranged_of_keep hnodup hapart (mem_bodies.mp hkeep) rules

theorem Batch.target_unbroken (h : Batch q w) {t : String × Rule} (ht : t ∈ w.keeps ++ w.heads ++ w.drops) :
    Unbroken (t.1 :: t.2) := by
  obtain ⟨rule, hrule, htarget⟩ := h.exists_rule ht
  exact (unbroken_of_checkRule (h.checked rule hrule)).target htarget

theorem update_ne_empty (commands : List Command) :
    "*filter\n" ++ "\n".intercalate (commands.map Command.line) ++ "\nCOMMIT\n" ≠ "" := by
  intro h
  have hchars := congrArg String.toList h
  rw [String.toList_append, String.toList_append] at hchars
  exact absurd (List.append_eq_nil_iff.mp (List.append_eq_nil_iff.mp hchars).1).1 (by decide)

/-- The update of a plan runs on the host, whether it is the empty one or the commands of the plan. -/
theorem applyUpdate_mirrors {host initial : Chains} {s : Planned} {keys : List String}
    (hmirror : Mirrors host initial) (hinitial : ∀ chain, (initial chain).isSome ↔ chain ∈ keys)
    (hcurrent : ∀ chain, (s.current chain).isSome ↔ chain ∈ keys)
    (hreplay : Replays host s.current s.commands)
    (hunbroken : ∀ command ∈ s.commands, Unbroken (command.target.1 :: command.target.2)) :
    ∃ after, applyUpdate host
        (if ∀ chain ∈ keys, s.current chain = initial chain then ""
          else "*filter\n" ++ "\n".intercalate (s.commands.map Command.line) ++ "\nCOMMIT\n") = some after ∧
      Mirrors after s.current ∧ (after = host ∨ s.commands.foldlM Command.apply host = some after) := by
  obtain ⟨after, hrun, hafter⟩ := hreplay
  split
  · rename_i hsame
    -- the commands of a plan that changes nothing are not run: the host's chains are the plan's already
    refine ⟨host, if_pos rfl, ?_, .inl rfl⟩
    intro chain rules hrules
    rw [hsame chain ((hcurrent chain).mp (by rw [hrules]; rfl))] at hrules
    exact hmirror chain rules hrules
  · rename_i hchanged
    refine ⟨after, ?_, hafter, .inr hrun⟩
    have hne : s.commands ≠ [] := by
      intro hnil
      rw [hnil] at hrun
      cases hrun
      exact hchanged fun chain _ => hafter.unique hmirror ((hcurrent chain).trans (hinitial chain).symm)
    rw [applyUpdate, if_neg (update_ne_empty s.commands), restore_update hne hunbroken, hrun]

/-- The rules that no command of a plan has the form of. -/
theorem not_touched_of_command {host initial : Chains} (hmirror : Mirrors host initial) {command : Command}
    (h : command.target ∈ w.heads ∨ command.target ∈ w.drops ∨
      command.target ∈ w.keeps ∧ present initial command.target = false)
    (hform : form command.target.2 = some command.target.2) {before rules : List Rule}
    (hbefore : host command.target.1 = some before) (hrules : initial command.target.1 = some rules) {rule : Rule}
    (hrule : form rule = form command.target.2) :
    touched w command.target.1 before rule = true := by
  obtain ⟨raw, hraw, hforms⟩ := hmirror _ rules hrules
  rw [hbefore] at hraw
  cases hraw
  rw [touched, hrule, hform]
  refine decide_eq_true ?_
  obtain h | h | ⟨h, habsent⟩ := h
  · exact .inl h
  · exact .inr (.inl h)
  · refine .inr (.inr ⟨h, ?_⟩)
    rw [present, hrules, Option.getD_some, decide_eq_false_iff_not] at habsent
    rw [hforms]
    simpa using habsent

/-- A plan on snapshots of the host: the update runs, the chains are settled, and a second plan changes nothing. -/
theorem plan_settles {host : Chains} {snapshots : List (String × String)} (hviews : Views host snapshots)
    (hbatch : Batch q w) (hchains : ∀ t ∈ w.keeps ++ w.heads ++ w.drops, t.1 ∈ snapshots.map Prod.fst) :
    ∃ update created after, plan q.rules q.removals snapshots = .ok (update, created) ∧
      applyUpdate host update = some after ∧
      (∀ chain before, chain ∈ snapshots.map Prod.fst → host chain = some before →
        ∃ rules, after chain = some rules ∧ Settled w chain before rules) ∧
      created = (w.keeps ++ w.heads).map (fun t => decide (some t.2 ∉ ((host t.1).getD []).map form)) ∧
      (∀ snapshots', snapshots'.map Prod.fst = snapshots.map Prod.fst → Views after snapshots' →
        ∃ created', plan q.rules q.removals snapshots' = .ok ("", created')) ∧
      ((∀ chain rules, host chain = some rules → ∀ r ∈ rules, Listed r) →
        ∀ chain rules, after chain = some rules → ∀ r ∈ rules, Listed r) := by
  obtain ⟨initial, s, hinitial, hmirror, hsome, hcurrent, hcreated, hreplay, hcommands, hplan⟩ :=
    plan_spec hviews hbatch hchains
  have hform := hbatch.form_target hviews hchains
  have hsomeCurrent : ∀ chain, (s.current chain).isSome ↔ chain ∈ snapshots.map Prod.fst := by
    intro chain
    rw [hcurrent, Option.isSome_map]
    exact hsome chain
  have htarget : ∀ command ∈ s.commands, command.target ∈ w.keeps ++ w.heads ++ w.drops := by
    intro command hc
    simp only [List.mem_append]
    obtain h | h | ⟨h, -⟩ := hcommands command hc
    · exact .inl (.inr h)
    · exact .inr h
    · exact .inl (.inl h)
  obtain ⟨after, hupdate, hafter, hsame⟩ := applyUpdate_mirrors hmirror hsome hsomeCurrent hreplay
    fun command hc => hbatch.target_unbroken (htarget command hc)
  refine ⟨_, s.created, after, hplan, hupdate, ?_, ?_, ?_, ?_⟩
  · intro chain before hkey hbefore
    obtain ⟨rules, hrules⟩ := Option.isSome_iff_exists.mp ((hsome chain).mpr hkey)
    have hchain : s.current chain = some (arranged w.keeps w.heads w.drops chain rules) := by
      rw [hcurrent, hrules, Option.map_some]
    obtain ⟨raw, hraw, hforms⟩ := hafter chain _ hchain
    refine ⟨raw, hraw, settled_of_arranged hbatch.distinct hbatch.apart hforms ?_⟩
    obtain rfl | hrun := hsame
    · rw [hraw] at hbefore
      cases hbefore
      rfl
    · have huntouched : ∀ command ∈ s.commands, command.target.1 = chain →
          ∀ rule, form rule = form command.target.2 → (!touched w chain before rule) = false := by
        intro command hc hcommand rule hrule
        subst hcommand
        rw [not_touched_of_command hmirror (hcommands command hc) (hform _ (htarget command hc)) hbefore hrules
          hrule, Bool.not_true]
      have hframe := run_frame hrun huntouched
      rw [hraw, hbefore, Option.map_some, Option.map_some] at hframe
      exact Option.some.inj hframe
  · rw [hcreated]
    refine List.map_congr_left fun t ht => ?_
    obtain ⟨rules, hrules⟩ := Option.isSome_iff_exists.mp
      ((hsome t.1).mpr (hchains t (List.mem_append_left _ ht)))
    obtain ⟨raw, hraw, hforms⟩ := hmirror _ rules hrules
    rw [present, hrules, hraw, Option.getD_some, Option.getD_some, hforms]
    simp
  · intro snapshots' hkeys hviews'
    obtain ⟨initial', s', -, hmirror', hsome', hcurrent', -, -, -, hplan'⟩ :=
      plan_spec hviews' hbatch (hkeys ▸ hchains)
    refine ⟨s'.created, ?_⟩
    rw [hplan', if_pos]
    intro chain hchain
    have hstart : initial' chain = s.current chain :=
      hmirror'.unique hafter ((hsome' chain).trans (by rw [hkeys]; exact (hsomeCurrent chain).symm))
    rw [hcurrent', hstart, hcurrent, Option.map_map]
    congr 1
    funext rules
    exact arranged_arranged hbatch.distinct hbatch.apart chain rules
  · intro hlisted
    obtain rfl | hrun := hsame
    · exact hlisted
    · refine run_listed hrun (fun command hc => ⟨?_, ?_⟩) hlisted
      · rw [hform _ (htarget command hc)]
        rfl
      · exact fun token ht => hbatch.target_unbroken (htarget command hc) token (List.mem_cons_of_mem _ ht)

end Convergence

section Main

variable {q : Request} {w : Wanted}

theorem dropTcp_head {chain : String} (hchain : chain ≠ "-m") {rule rest : Rule}
    (h : dropTcp (chain :: rule) = some rest) : rest.head? = some chain := by
  cases rule with
  | nil => cases h
  | cons b rule =>
    rw [dropTcp, if_neg fun hpair => hchain hpair.1] at h
    obtain ⟨r, -, rfl⟩ := Option.map_eq_some_iff.mp h
    rfl

theorem stripTcp_head {chain : String} (hchain : chain ≠ "-m") (n : ℕ) {rule : Rule}
    (h : rule.head? = some chain) : (stripTcp n rule).head? = some chain := by
  induction n generalizing rule with
  | zero => exact h
  | succ n ih =>
    rw [stripTcp]
    split
    · rename_i rest hdrop
      obtain ⟨tail, rfl⟩ := List.head?_eq_some_iff.mp h
      exact ih (dropTcp_head hchain hdrop)
    · exact h

/-- The chain of a canonical rule is the one the rule names. -/
theorem target_chain {rule : Rule} {t : String × Rule} {chain : String} (hhead : rule.head? = some chain)
    (hchain : chain ≠ "-m") (h : target rule = .ok t) : t.1 = chain := by
  have hcanonical : canonical rule = .ok (t.1 :: t.2) := canonical_of_target h
  have hsorted := sortCtstate_head? (canonical_eq_ok.mp hcanonical)
  rw [stripTcp_head hchain _ hhead, List.head?_cons] at hsorted
  exact Option.some.inj hsorted

theorem checkRule_chain {rule : Rule} (h : checkRule rule = .ok ()) :
    ∃ chain, rule.head? = some chain ∧ chain ∈ ["DOCKER-USER", "INPUT"] := by
  cases rule with
  | nil => cases h
  | cons chain rest =>
    refine ⟨chain, rfl, ?_⟩
    by_contra hchain
    rw [checkRule] at h
    simp only [if_pos hchain] at h
    cases h

theorem Batch.mem_chains (h : Batch q w) {t : String × Rule} (ht : t ∈ w.keeps ++ w.heads ++ w.drops) :
    t.1 ∈ q.chains := by
  obtain ⟨rule, hrule, htarget⟩ := h.exists_rule ht
  obtain ⟨chain, hhead, hchain⟩ := checkRule_chain (h.checked rule hrule)
  have hne : chain ≠ "-m" := by
    rintro rfl
    exact absurd hchain (by decide)
  rw [target_chain hhead hne htarget, Request.chains, List.mem_insertionSort, List.mem_dedup, List.mem_filterMap]
  exact ⟨rule, hrule, hhead⟩

theorem Batch.chains_known (h : Batch q w) {chain : String} (hchain : chain ∈ q.chains) :
    chain ∈ ["INPUT", "DOCKER-USER"] := by
  rw [Request.chains, List.mem_insertionSort, List.mem_dedup, List.mem_filterMap] at hchain
  obtain ⟨rule, hrule, hhead⟩ := hchain
  obtain ⟨c, hc, hmem⟩ := checkRule_chain (h.checked rule hrule)
  rw [hc] at hhead
  cases hhead
  simpa [or_comm] using hmem

/-- `iptables -S`: the text of a chain reads as the chain's rules. -/
def Lists (listing : String → List Rule → String) : Prop :=
  ∀ chain ∈ ["INPUT", "DOCKER-USER"], ∀ rules : List Rule, (∀ r ∈ rules, Listed r) →
    readChain canonical chain (listing chain rules) = .ok (rules.filterMap form)

theorem map_form_filterMap {rules : List Rule} (h : ∀ r ∈ rules, Listed r) :
    rules.map form = (rules.filterMap form).map some := by
  induction rules with
  | nil => rfl
  | cons r rules ih =>
    obtain ⟨body, hbody⟩ := Option.isSome_iff_exists.mp (h r List.mem_cons_self).1
    rw [List.map_cons, List.filterMap_cons_some hbody, List.map_cons, hbody,
      ih fun s hs => h s (List.mem_cons_of_mem _ hs)]

/-- A host that lists a chain by joining the tokens of its rules. -/
def shellListing (chain : String) (rules : List Rule) : String :=
  String.ofList ((Shell.join ["-N", chain] :: rules.map fun r => Shell.join ("-A" :: chain :: r)).flatMap
    fun line => line.toList ++ ['\n'])

theorem splitlines_shellListing {chain : String} (hchain : ∀ c ∈ chain.toList, Shell.isBreak c = false)
    {rules : List Rule} (h : ∀ r ∈ rules, Unbroken r) :
    Shell.splitlines (shellListing chain rules) =
      Shell.join ["-N", chain] :: rules.map fun r => Shell.join ("-A" :: chain :: r) := by
  have hlines : ∀ line ∈ Shell.join ["-N", chain] :: rules.map (fun r => Shell.join ("-A" :: chain :: r)),
      ∀ c ∈ line.toList, Shell.isBreak c = false := by
    intro line hline
    obtain rfl | hline := List.mem_cons.mp hline
    · refine Shell.join_unbroken fun t ht => ?_
      simp only [List.mem_cons, List.not_mem_nil, or_false] at ht
      obtain rfl | rfl := ht
      · exact Shell.unbroken_iff.mp (by decide)
      · exact hchain
    · obtain ⟨r, hr, rfl⟩ := List.mem_map.mp hline
      refine Shell.join_unbroken fun t ht => ?_
      simp only [List.mem_cons] at ht
      obtain rfl | rfl | ht := ht
      · exact Shell.unbroken_iff.mp (by decide)
      · exact hchain
      · exact h r hr t ht
  have hflat : ∀ lines : List String, (lines.flatMap fun line => line.toList ++ ['\n']) =
      (lines.map String.toList).flatMap fun l => l ++ ['\n'] := by
    intro lines
    rw [List.flatMap_map]
  rw [Shell.splitlines, shellListing, String.toList_ofList, hflat, Shell.linesFrom_flatMap, List.map_map]
  · exact (List.map_congr_left fun s _ => String.ofList_toList).trans (List.map_id _)
  · intro l hl
    obtain ⟨line, hline, rfl⟩ := List.mem_map.mp hl
    exact hlines line hline

theorem readLine_rule {chain : String} {rule body : Rule} (h : form rule = some body) :
    readLine canonical chain (Shell.join ("-A" :: chain :: rule)) = .ok (some body) := by
  have hcanonical : canonical rule = .ok body := by
    rw [form] at h
    cases hc : canonical rule with
    | ok r => rw [hc] at h; cases h; rfl
    | error e => rw [hc] at h; cases h
  rw [readLine, Shell.split_join]
  simp only [Except.mapError, bind, Except.bind, List.take_succ_cons, List.take_zero, if_true, List.drop_succ_cons,
    List.drop_zero, hcanonical]
  rfl

/-- That host's texts read as its rules. -/
theorem lists_shellListing : Lists shellListing := by
  intro chain hchain rules hrules
  have hbreak : ∀ c ∈ chain.toList, Shell.isBreak c = false := by
    simp only [List.mem_cons, List.not_mem_nil, or_false] at hchain
    obtain rfl | rfl := hchain
    · exact Shell.unbroken_iff.mp (by decide)
    · exact Shell.unbroken_iff.mp (by decide)
  have hmap : (rules.map fun r => Shell.join ("-A" :: chain :: r)).mapM (readLine canonical chain) =
      .ok ((rules.filterMap form).map some) := by
    induction rules with
    | nil => rfl
    | cons r rules ih =>
      obtain ⟨body, hbody⟩ := Option.isSome_iff_exists.mp (hrules r List.mem_cons_self).1
      rw [List.map_cons, List.mapM_cons, readLine_rule hbody, List.filterMap_cons_some hbody, List.map_cons,
        ih fun s hs => hrules s (List.mem_cons_of_mem _ hs)]
      rfl
  have hblank : Text.blank (shellListing chain rules) = false := by
    have hword : "-N".toList ∈ (List.map Shell.quote ["-N", chain]).map String.toList := by
      rw [List.map_cons, show Shell.quote "-N" = "-N" from by decide]
      exact List.mem_cons_self
    have hdash : '-' ∈ (Shell.join ["-N", chain]).toList := by
      rw [Shell.join, String.toList_intercalate]
      exact Shell.mem_intercalate_of_mem _ hword (by decide)
    rw [Text.blank, List.all_eq_false, shellListing, String.toList_ofList]
    exact ⟨'-', List.mem_flatMap.mpr ⟨_, List.mem_cons_self, List.mem_append_left _ hdash⟩, by decide⟩
  have hhead : readLine canonical chain (Shell.join ["-N", chain]) = .ok none := by
    rw [readLine, Shell.split_join]
    simp only [Except.mapError, bind, Except.bind, List.take_succ_cons, List.take_zero]
    rw [if_neg (by simp), if_pos (.inr trivial)]
    rfl
  rw [readChain, if_neg (by simp [hchain, hblank]), splitlines_shellListing hbreak fun r hr => (hrules r hr).2,
    List.mapM_cons, hhead, hmap]
  simp [pure, Except.pure, bind, Except.bind]

/-- What the helper observes are views of the host. -/
theorem observe_ok {listing : String → List Rule → String} (hlists : Lists listing) {host : Chains}
    (hlisted : ∀ chain rules, host chain = some rules → ∀ r ∈ rules, Listed r) {chains : List String}
    (hchains : ∀ chain ∈ chains, chain ∈ ["INPUT", "DOCKER-USER"]) {snapshots : List (String × String)}
    (h : observe listing host chains = .ok snapshots) :
    snapshots.map Prod.fst = chains ∧ Views host snapshots := by
  induction chains generalizing snapshots with
  | nil =>
    cases h
    exact ⟨rfl, fun entry he => nomatch he⟩
  | cons chain chains ih =>
    rw [observe, List.mapM_cons] at h
    obtain ⟨entry, hentry, h⟩ := bind_eq_ok h
    obtain ⟨rest, hrest, h⟩ := bind_eq_ok h
    cases h
    obtain ⟨hkeys, hviews⟩ := ih (fun c hc => hchains c (List.mem_cons_of_mem _ hc)) hrest
    match hhost : host chain with
    | none =>
      rw [hhost] at hentry
      cases hentry
    | some raw =>
      rw [hhost] at hentry
      simp only at hentry
      split at hentry
      · cases hentry
      · cases hentry
        refine ⟨by rw [List.map_cons, hkeys], fun e he => ?_⟩
        obtain rfl | he := List.mem_cons.mp he
        · exact ⟨raw, raw.filterMap form, hhost,
            hlists chain (hchains chain List.mem_cons_self) raw (hlisted chain raw hhost),
            map_form_filterMap (hlisted chain raw hhost)⟩
        · exact hviews e he

theorem observe_error {listing : String → List Rule → String} {host : Chains} {chains : List String}
    {e : Failure} (h : observe listing host chains = .error e) (message : String) : e ≠ .runtime message := by
  induction chains with
  | nil => cases h
  | cons chain chains ih =>
    rw [observe, List.mapM_cons] at h
    match hhost : host chain with
    | none =>
      rw [hhost] at h
      cases h
      simp
    | some raw =>
      rw [hhost] at h
      by_cases hsize : maxChainBytes < (listing chain raw).utf8ByteSize
      · simp only [if_pos hsize] at h
        cases h
        simp
      · match hrest : observe listing host chains with
        | .ok rest =>
          rw [observe] at hrest
          simp only [if_neg hsize, hrest] at h
          cases h
        | .error e' =>
          have hrest' := hrest
          rw [observe] at hrest'
          simp only [if_neg hsize, hrest'] at h
          cases h
          exact ih hrest

theorem forM_checkRule {rules : List Rule} (h : ∀ rule ∈ rules, checkRule rule = .ok ()) :
    rules.forM checkRule = .ok () := by
  induction rules with
  | nil => rfl
  | cons rule rules ih =>
    change (checkRule rule >>= fun _ => rules.forM checkRule) = .ok ()
    rw [h rule List.mem_cons_self]
    exact ih fun r hr => h r (List.mem_cons_of_mem _ hr)

/-- The helper's second look at the chains finds nothing to do. -/
theorem main_verifies {listing : String → List Rule → String} (hlists : Lists listing) {host : Chains}
    (hlisted : ∀ chain rules, host chain = some rules → ∀ r ∈ rules, Listed r) (hbatch : Batch q w) :
    main listing host q ≠ .error (.runtime "host firewall verification failed") := by
  intro h
  rw [main, forM_checkRule hbatch.checked] at h
  split at h
  · cases h
  · match hobserve : observe listing host q.chains with
    | .error e =>
      rw [hobserve] at h
      cases h
      exact observe_error hobserve _ rfl
    | .ok snapshots =>
      obtain ⟨hkeys, hviews⟩ := observe_ok hlists hlisted (fun c hc => hbatch.chains_known hc) hobserve
      obtain ⟨update, created, after, hplan, hupdate, -, -, hagain, hstill⟩ :=
        plan_settles hviews hbatch fun t ht => hkeys ▸ hbatch.mem_chains ht
      simp only [hobserve, bind, Except.bind, hplan, hupdate, Option.elim_some] at h
      match hobserve' : observe listing after q.chains with
      | .error e =>
        rw [hobserve'] at h
        cases h
        exact observe_error hobserve' _ rfl
      | .ok snapshots' =>
        obtain ⟨hkeys', hviews'⟩ :=
          observe_ok hlists (hstill hlisted) (fun c hc => hbatch.chains_known hc) hobserve'
        obtain ⟨created', hplan'⟩ := hagain snapshots' (hkeys'.trans hkeys.symm) hviews'
        simp only [hobserve', hplan'] at h
        cases h

/-- For every batch and every snapshot of its chains: the update of the plan runs on the host, and after it each
chain is settled, the flags say which rules were missing, a second plan is empty, and so the helper's own
verification passes. -/
theorem batch_converges {host : Chains} {snapshots : List (String × String)} (hviews : Views host snapshots)
    (hbatch : Batch q w) (hchains : ∀ t ∈ w.keeps ++ w.heads ++ w.drops, t.1 ∈ snapshots.map Prod.fst) :
    (∃ update created after, plan q.rules q.removals snapshots = .ok (update, created) ∧
      applyUpdate host update = some after ∧
      (∀ chain before, chain ∈ snapshots.map Prod.fst → host chain = some before →
        ∃ rules, after chain = some rules ∧ Settled w chain before rules) ∧
      created = (w.keeps ++ w.heads).map (fun t => decide (some t.2 ∉ ((host t.1).getD []).map form)) ∧
      ∀ snapshots', snapshots'.map Prod.fst = snapshots.map Prod.fst → Views after snapshots' →
        ∃ created', plan q.rules q.removals snapshots' = .ok ("", created')) ∧
    ∀ listing : String → List Rule → String, Lists listing →
      (∀ chain rules, host chain = some rules → ∀ r ∈ rules, Listed r) →
      main listing host q ≠ .error (.runtime "host firewall verification failed") := by
  obtain ⟨update, created, after, hplan, hupdate, hsettled, hcreated, hagain, -⟩ :=
    plan_settles hviews hbatch hchains
  exact ⟨⟨update, created, after, hplan, hupdate, hsettled, hcreated, hagain⟩,
    fun listing hlists hlisted => main_verifies hlists hlisted hbatch⟩

theorem batch_converges_policy :
    let host : Chains := fun chain =>
      if chain = "INPUT" then some [["-p", "tcp", "-m", "tcp", "--dport", "22", "-j", "ACCEPT"]]
      else if chain = "DOCKER-USER" then
        some [["-s", "172.30.0.0/24", "-j", "DROP"], ["-s", "192.0.2.1/32", "-j", "ACCEPT"],
          ["-s", "172.30.0.2/32", "-j", "ACCEPT"]]
      else none
    let q : Request :=
      { rules := [(["DOCKER-USER", "-s", "172.30.0.0/24", "-j", "DROP"], false),
          (["INPUT", "-s", "172.30.0.0/24", "-j", "DROP"], false),
          (["DOCKER-USER", "-p", "tcp", "-m", "tcp", "-m", "conntrack", "--ctstate", "RELATED,ESTABLISHED",
            "-j", "RETURN"], true)]
        removals := [["DOCKER-USER", "-s", "172.30.0.2/32", "-j", "ACCEPT"]] }
    (∃ update after, plan q.rules q.removals
        [("DOCKER-USER", shellListing "DOCKER-USER" ((host "DOCKER-USER").getD [])),
          ("INPUT", shellListing "INPUT" ((host "INPUT").getD []))] = .ok (update, [false, true, true]) ∧
      applyUpdate host update = some after) ∧
    main shellListing host q ≠ .error (.runtime "host firewall verification failed") := by
  intro host q
  have hlisted : ∀ chain rules, host chain = some rules → ∀ r ∈ rules, Listed r := by
    intro chain rules h
    by_cases hinput : chain = "INPUT"
    · subst hinput
      obtain rfl : [["-p", "tcp", "-m", "tcp", "--dport", "22", "-j", "ACCEPT"]] = rules := Option.some.inj h
      decide +kernel
    · by_cases hdocker : chain = "DOCKER-USER"
      · subst hdocker
        obtain rfl : [["-s", "172.30.0.0/24", "-j", "DROP"], ["-s", "192.0.2.1/32", "-j", "ACCEPT"],
          ["-s", "172.30.0.2/32", "-j", "ACCEPT"]] = rules := Option.some.inj h
        decide +kernel
      · simp [host, hinput, hdocker] at h
  have hviews : Views host
      [("DOCKER-USER", shellListing "DOCKER-USER" ((host "DOCKER-USER").getD [])),
        ("INPUT", shellListing "INPUT" ((host "INPUT").getD []))] := by
    intro entry hentry
    simp only [List.mem_cons, List.not_mem_nil, or_false] at hentry
    obtain rfl | rfl := hentry
    · have hrules := hlisted "DOCKER-USER" _ rfl
      exact ⟨_, _, rfl, lists_shellListing _ (by decide) _ hrules, map_form_filterMap hrules⟩
    · have hrules := hlisted "INPUT" _ rfl
      exact ⟨_, _, rfl, lists_shellListing _ (by decide) _ hrules, map_form_filterMap hrules⟩
  have hbatch : Batch q
      { keeps := [("DOCKER-USER", ["-s", "172.30.0.0/24", "-j", "DROP"]), ("INPUT", ["-s", "172.30.0.0/24", "-j", "DROP"])]
        heads := [("DOCKER-USER", ["-p", "tcp", "-m", "conntrack", "--ctstate", "ESTABLISHED,RELATED", "-j", "RETURN"])]
        drops := [("DOCKER-USER", ["-s", "172.30.0.2/32", "-j", "ACCEPT"])] } :=
    { rules := ⟨[["DOCKER-USER", "-s", "172.30.0.0/24", "-j", "DROP"], ["INPUT", "-s", "172.30.0.0/24", "-j", "DROP"]],
        [["DOCKER-USER", "-p", "tcp", "-m", "tcp", "-m", "conntrack", "--ctstate", "RELATED,ESTABLISHED",
          "-j", "RETURN"]], rfl, by decide +kernel, by decide +kernel⟩
      removals := by decide +kernel
      checked := by decide +kernel
      distinct := by decide +kernel
      apart := by decide +kernel }
  obtain ⟨⟨update, created, after, hplan, hupdate, -, hcreated, -⟩, hmain⟩ :=
    batch_converges hviews hbatch (by decide +kernel)
  have hflags : created = [false, true, true] := by
    rw [hcreated]
    decide +kernel
  rw [hflags] at hplan
  exact ⟨⟨update, after, hplan, hupdate⟩, hmain shellListing lists_shellListing hlisted⟩

end Main

end Soveren.Firewall
