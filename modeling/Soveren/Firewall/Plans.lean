import Soveren.Firewall.Batch

/-! What a planned update does: the text replays on the host's chains to the lists that the plan computed,
and these lists are the ones the request asks for. -/
namespace Soveren.Firewall
open Soveren

section Canonical

theorem dropTcp_length {rule rest : Rule} (h : dropTcp rule = some rest) : rest.length < rule.length := by
  induction rule using dropTcp.induct generalizing rest with
  | case1 a b tail hpair =>
    rw [dropTcp, if_pos hpair] at h
    cases h
    simp only [List.length_cons]
    omega
  | case2 a b tail hpair ih =>
    rw [dropTcp, if_neg hpair] at h
    obtain ⟨r, hr, rfl⟩ := Option.map_eq_some_iff.mp h
    have hlt := ih hr
    simp only [List.length_cons] at hlt ⊢
    omega
  | case3 rule hshort =>
    rw [dropTcp.eq_2 _ hshort] at h
    cases h

theorem dropTcp_stripTcp {n : ℕ} {rule : Rule} (h : rule.length ≤ n) : dropTcp (stripTcp n rule) = none := by
  induction n generalizing rule with
  | zero =>
    rw [List.eq_nil_of_length_eq_zero (Nat.le_zero.mp h)]
    rfl
  | succ n ih =>
    rw [stripTcp]
    split
    · rename_i rest hdrop
      have hlt := dropTcp_length hdrop
      exact ih (by omega)
    · assumption

theorem stripTcp_of_dropTcp_none {rule : Rule} (h : dropTcp rule = none) (n : ℕ) : stripTcp n rule = rule := by
  cases n with
  | zero => rfl
  | succ n => rw [stripTcp, h]

theorem dropTcp_cons_none {a : String} {rule : Rule} :
    dropTcp (a :: rule) = none ↔ ¬ (a = "-m" ∧ rule.head? = some "tcp") ∧ dropTcp rule = none := by
  cases rule with
  | nil => simp [dropTcp]
  | cons b rule =>
    rw [dropTcp]
    by_cases hpair : a = "-m" ∧ b = "tcp"
    · simp [hpair]
    · simp [hpair]

theorem not_mem_splitOn {sep : Char} {s piece : List Char} (h : piece ∈ s.splitOn sep) : sep ∉ piece := by
  induction s generalizing piece with
  | nil =>
    rw [List.splitOn_nil, List.mem_singleton] at h
    rw [h]
    exact List.not_mem_nil
  | cons c s ih =>
    rw [List.splitOn_cons_eq_if_modifyHead] at h
    split at h
    · obtain rfl | h := List.mem_cons.mp h
      · exact List.not_mem_nil
      · exact ih h
    · rename_i hsep
      match hs : s.splitOn sep with
      | [] => exact absurd hs (List.splitOn_ne_nil sep s)
      | first :: rest =>
        rw [hs, List.modifyHead_cons] at h
        rw [hs] at ih
        obtain rfl | h := List.mem_cons.mp h
        · rw [List.mem_cons, not_or]
          exact ⟨fun heq => hsep (beq_iff_eq.mpr heq.symm), ih List.mem_cons_self⟩
        · exact ih (List.mem_cons_of_mem _ h)

/-- The states of a value, sorted. -/
def states (value : String) : List String :=
  ((value.toList.splitOn ',').map String.ofList).insertionSort (· ≤ ·)

theorem states_ne_nil (value : String) : states value ≠ [] := by
  rw [states, ← List.length_pos_iff, List.length_insertionSort, List.length_map, List.length_pos_iff]
  exact List.splitOn_ne_nil _ _

/-- Sorted states are joined by commas that are in none of them, so they are read back. -/
theorem splitOn_sortStates (value : String) :
    (sortStates value).toList.splitOn ',' = (states value).map String.toList := by
  rw [sortStates, ← states, String.toList_intercalate, show ",".toList = [','] from by decide]
  refine List.splitOn_intercalate ',' ?_ (by simpa using states_ne_nil value)
  intro piece hpiece
  obtain ⟨state, hstate, rfl⟩ := List.mem_map.mp hpiece
  rw [states, List.mem_insertionSort] at hstate
  obtain ⟨chars, hchars, rfl⟩ := List.mem_map.mp hstate
  rw [String.toList_ofList]
  exact not_mem_splitOn hchars

theorem sortStates_idem (value : String) : sortStates (sortStates value) = sortStates value := by
  have hsorted : (states value).Pairwise (· ≤ ·) := List.pairwise_insertionSort _ _
  have hstates : (((states value).map String.toList).map String.ofList) = states value := by
    rw [List.map_map]
    exact (List.map_congr_left fun s _ => String.ofList_toList).trans (List.map_id _)
  rw [sortStates, splitOn_sortStates, hstates, hsorted.insertionSort_eq]
  rfl

/-- Only a value without commas is sorted into one. -/
theorem sortStates_eq_of_not_mem {value word : String} (hword : ',' ∉ word.toList)
    (h : sortStates value = word) : value = word := by
  have hone : (states value).map String.toList = [word.toList] := by
    rw [← splitOn_sortStates, h, List.splitOn_eq_singleton hword]
  have hperm : ((value.toList.splitOn ',').map String.ofList).Perm [word] := by
    obtain ⟨s, hs, hword⟩ := List.map_eq_singleton_iff.mp hone
    have hstates : states value = [word] := by rw [hs, String.toList_inj.mp hword]
    exact hstates ▸ (List.perm_insertionSort _ _).symm
  obtain ⟨chars, hchars, hof⟩ := List.map_eq_singleton_iff.mp (List.perm_singleton.mp hperm)
  have hvalue : [','].intercalate (value.toList.splitOn ',') = value.toList := List.intercalate_splitOn ','
  rw [hchars, List.intercalate_singleton] at hvalue
  rw [← hof, hvalue, String.ofList_toList]

theorem sortCtstate_head? {rule sorted : Rule} (h : sortCtstate rule = some sorted) :
    sorted.head? = rule.head? := by
  cases rule with
  | nil => cases h; rfl
  | cons token rest =>
    rw [sortCtstate] at h
    obtain ⟨r, -, rfl⟩ := Option.map_eq_some_iff.mp h
    rfl

theorem sortCtstate_idem {rule sorted : Rule} (h : sortCtstate rule = some sorted) :
    sortCtstate sorted = some sorted := by
  induction rule generalizing sorted with
  | nil => cases h; rfl
  | cons token rest ih =>
    rw [sortCtstate] at h
    obtain ⟨r, hr, rfl⟩ := Option.map_eq_some_iff.mp h
    rw [sortCtstate]
    split at hr
    · rename_i htoken
      cases rest with
      | nil => cases hr
      | cons value rest =>
        cases hr
        rw [if_pos htoken, sortNext, sortStates_idem, Option.map_some]
    · rename_i htoken
      rw [if_neg htoken, ih hr, Option.map_some]

/-- Sorting the states makes no new `-m tcp`: it keeps every token but one, and that one is `-m` only if
it was. -/
theorem dropTcp_sortCtstate {rule sorted : Rule} (hdrop : dropTcp rule = none)
    (h : sortCtstate rule = some sorted) : dropTcp sorted = none := by
  induction rule generalizing sorted with
  | nil => cases h; rfl
  | cons token rest ih =>
    rw [sortCtstate] at h
    obtain ⟨hpair, hrest⟩ := dropTcp_cons_none.mp hdrop
    obtain ⟨r, hr, rfl⟩ := Option.map_eq_some_iff.mp h
    split at hr
    · rename_i htoken
      cases rest with
      | nil => cases hr
      | cons value rest =>
        cases hr
        obtain ⟨hvalue, htail⟩ := dropTcp_cons_none.mp hrest
        refine dropTcp_cons_none.mpr ⟨fun hm => ?_, dropTcp_cons_none.mpr ⟨fun hm => ?_, htail⟩⟩
        · exact absurd (htoken.symm.trans hm.1) (by decide)
        · exact hvalue ⟨sortStates_eq_of_not_mem (by decide) hm.1, hm.2⟩
    · refine dropTcp_cons_none.mpr ⟨fun hm => hpair ⟨hm.1, ?_⟩, ih hrest hr⟩
      rw [← sortCtstate_head? hr, hm.2]

theorem canonical_eq_ok {rule sorted : Rule} :
    canonical rule = .ok sorted ↔ sortCtstate (stripTcp rule.length rule) = some sorted := by
  rw [canonical]
  split
  · rename_i r hr
    rw [hr]
    simp
  · rename_i hr
    rw [hr]
    simp

theorem canonical_eq_self {rule : Rule} (hdrop : dropTcp rule = none) (hsort : sortCtstate rule = some rule) :
    canonical rule = .ok rule := by
  rw [canonical_eq_ok, stripTcp_of_dropTcp_none hdrop, hsort]

theorem canonical_of_target {rule body : Rule} {chain : String} (h : target rule = .ok (chain, body)) :
    canonical rule = .ok (chain :: body) := by
  rw [target] at h
  match hc : canonical rule with
  | .error e => rw [hc] at h; cases h
  | .ok [] => rw [hc] at h; cases h
  | .ok (c :: b) => rw [hc] at h; cases h; rfl

/-- The body of a canonical rule is canonical by itself. -/
theorem form_of_target {rule body : Rule} {chain : String} (hchain : chain ≠ "--ctstate")
    (h : target rule = .ok (chain, body)) : form body = some body := by
  have hsort := canonical_eq_ok.mp (canonical_of_target h)
  have hdrop := dropTcp_sortCtstate (dropTcp_stripTcp le_rfl) hsort
  have hsorted := sortCtstate_idem hsort
  rw [sortCtstate, if_neg hchain] at hsorted
  obtain ⟨r, hr, hcons⟩ := Option.map_eq_some_iff.mp hsorted
  rw [form, canonical_eq_self (dropTcp_cons_none.mp hdrop).2 ((List.cons.inj hcons).2 ▸ hr)]
  rfl

end Canonical

section Replay

theorem split_append_join {word : String} (h : Shell.quote word = word) (tokens : List String) (chain : String) :
    Shell.split (word ++ " " ++ Shell.join (chain :: tokens)) = .ok (word :: chain :: tokens) := by
  have hjoin : word ++ " " ++ Shell.join (chain :: tokens) = Shell.join (word :: chain :: tokens) := by
    rw [Shell.join, Shell.join, List.map_cons, List.map_cons, List.map_cons, String.intercalate_cons_cons, h]
  rw [hjoin, Shell.split_join]

/-- The line of a command is read as that command. -/
theorem read_line (command : Command) : Command.read command.line = some command := by
  cases command with
  | delete chain body =>
    have hsplit := split_append_join (show Shell.quote "-D" = "-D" from by decide) body chain
    rw [show "-D" ++ " " = "-D " from by decide] at hsplit
    rw [Command.read, Command.line, hsplit]
    exact if_pos rfl
  | insert chain body =>
    have hsplit := split_append_join (show Shell.quote "-I" = "-I" from by decide) ("1" :: body) chain
    rw [show "-I" ++ " " = "-I " from by decide] at hsplit
    rw [Command.read, Command.line, hsplit]
    exact (if_neg (by decide)).trans (if_pos ⟨rfl, rfl⟩)

/-- The host's chains hold the rules of a plan, each in some spelling. -/
def Mirrors (host current : Chains) : Prop :=
  ∀ chain rules, current chain = some rules → ∃ raw, host chain = some raw ∧ raw.map form = rules.map some

/-- The commands run on the host and end in chains that hold the rules of the plan. -/
def Replays (host current : Chains) (commands : List Command) : Prop :=
  ∃ after, commands.foldlM Command.apply host = some after ∧ Mirrors after current

theorem map_form_eraseP {raw rules : List Rule} (h : raw.map form = rules.map some) (body : Rule) :
    (raw.eraseP (form · = some body)).map form = (rules.erase body).map some := by
  induction raw generalizing rules with
  | nil =>
    cases rules with
    | nil => rfl
    | cons r rules => cases h
  | cons w raw ih =>
    cases rules with
    | nil => cases h
    | cons r rules =>
      obtain ⟨hw, hraw⟩ := List.cons.inj h
      by_cases hbody : r = body
      · rw [List.eraseP_cons_of_pos (by simpa [hbody] using hw), hbody, List.erase_cons_head, hraw]
      · have hne : form w ≠ some body := fun hf => hbody (Option.some.inj (hw.symm.trans hf))
        rw [List.eraseP_cons_of_neg (by simpa using hne), List.erase_cons_tail (by simpa using hbody),
          List.map_cons, List.map_cons, ih hraw, hw]

theorem Mirrors.update {host current : Chains} (h : Mirrors host current) {chain : String} {raw rules : List Rule}
    (hforms : raw.map form = rules.map some) :
    Mirrors (Function.update host chain (some raw)) (Function.update current chain (some rules)) := by
  intro c rules' hc
  by_cases heq : c = chain
  · subst heq
    rw [Function.update_self] at hc ⊢
    exact ⟨raw, rfl, Option.some.inj hc ▸ hforms⟩
  · rw [Function.update_of_ne heq] at hc ⊢
    exact h c rules' hc

theorem Replays.delete {host current : Chains} {commands : List Command} (h : Replays host current commands)
    {chain : String} {rules : List Rule} {body : Rule} (hrules : current chain = some rules)
    (hmem : body ∈ rules) (hform : form body = some body) :
    Replays host (Function.update current chain (some (rules.erase body)))
      (commands ++ [.delete chain body]) := by
  obtain ⟨after, hrun, hmirror⟩ := h
  obtain ⟨raw, hraw, hforms⟩ := hmirror chain rules hrules
  have hany : raw.any (form · = some body) = true := by
    have hmap : some body ∈ raw.map form := hforms ▸ List.mem_map_of_mem hmem
    obtain ⟨w, hw, hwf⟩ := List.mem_map.mp hmap
    exact List.any_eq_true.mpr ⟨w, hw, by simpa using hwf⟩
  refine ⟨Function.update after chain (some (raw.eraseP (form · = some body))), ?_,
    hmirror.update (map_form_eraseP hforms body)⟩
  rw [List.foldlM_append, hrun]
  simp only [Option.bind_eq_bind, Option.bind_some, List.foldlM_cons, List.foldlM_nil, Command.apply, hraw, hform,
    hany, if_true]
  rfl

theorem Replays.insert {host current : Chains} {commands : List Command} (h : Replays host current commands)
    {chain : String} {rules : List Rule} {body : Rule} (hrules : current chain = some rules)
    (hform : form body = some body) :
    Replays host (Function.update current chain (some (body :: rules)))
      (commands ++ [.insert chain body]) := by
  obtain ⟨after, hrun, hmirror⟩ := h
  obtain ⟨raw, hraw, hforms⟩ := hmirror chain rules hrules
  refine ⟨Function.update after chain (some (body :: raw)), ?_, hmirror.update (by simp [hform, hforms])⟩
  rw [List.foldlM_append, hrun]
  simp only [Option.bind_eq_bind, Option.bind_some, List.foldlM_cons, List.foldlM_nil, Command.apply, hraw]
  rfl

/-- The loop that deletes a rule: each of its commands finds a rule to delete. -/
theorem Replays.deleteAll {host current : Chains} {chain : String} {body : Rule} (hform : form body = some body)
    (n : ℕ) {rules : List Rule} {commands : List Command}
    (h : Replays host (Function.update current chain (some rules)) commands) :
    Replays host (Function.update current chain (some (deleteAll chain body n (rules, commands)).1))
      (deleteAll chain body n (rules, commands)).2 := by
  induction n generalizing rules commands with
  | zero => exact h
  | succ n ih =>
    rw [Firewall.deleteAll]
    split
    · rename_i hmem
      have hdelete := h.delete (Function.update_self chain _ current) hmem hform
      rw [Function.update_idem] at hdelete
      exact ih hdelete
    · exact h

theorem filter_erase (rules : List Rule) (body : Rule) :
    (rules.erase body).filter (· ≠ body) = rules.filter (· ≠ body) := by
  induction rules with
  | nil => rfl
  | cons r rules ih =>
    by_cases hr : r = body
    · subst hr
      simp
    · rw [List.erase_cons_tail (by simpa using hr), List.filter_cons, List.filter_cons, ih]

theorem deleteAll_rules (chain : String) (body : Rule) {n : ℕ} {rules : List Rule} (hn : rules.length ≤ n)
    (commands : List Command) : (deleteAll chain body n (rules, commands)).1 = rules.filter (· ≠ body) := by
  induction n generalizing rules commands with
  | zero =>
    rw [List.eq_nil_of_length_eq_zero (Nat.le_zero.mp hn)]
    rfl
  | succ n ih =>
    rw [deleteAll]
    split
    · rename_i hmem
      have hlength : (rules.erase body).length = rules.length - 1 := List.length_erase_of_mem hmem
      rw [ih (by change (rules.erase body).length ≤ n; omega)]
      exact filter_erase rules body
    · rename_i hmem
      exact (List.filter_eq_self.mpr fun r hr => by simpa using ne_of_mem_of_not_mem hr hmem).symm

theorem mem_deleteAll {chain : String} {body : Rule} {n : ℕ} {s : List Rule × List Command} {command : Command}
    (h : command ∈ (deleteAll chain body n s).2) : command ∈ s.2 ∨ command = .delete chain body := by
  induction n generalizing s with
  | zero => exact .inl h
  | succ n ih =>
    rw [deleteAll] at h
    split at h
    · obtain h | h := ih h
      · simpa using h
      · exact .inr h
    · exact .inl h

end Replay

section Planning

/-- Whether a rule of a chain is there. -/
def present (current : Chains) (t : String × Rule) : Bool := decide (t.2 ∈ (current t.1).getD [])

/-- The chains after one rule of the request. -/
def place (first : Bool) (current : Chains) (t : String × Rule) : Chains :=
  fun chain =>
    if chain = t.1 then
      (current chain).map fun rules =>
        if t.2 ∈ rules ∧ first = false then rules else t.2 :: rules.filter (· ≠ t.2)
    else current chain

/-- The chains after one removal. -/
def displace (current : Chains) (t : String × Rule) : Chains :=
  fun chain => if chain = t.1 then (current chain).map (·.filter (· ≠ t.2)) else current chain

def Command.target : Command → String × Rule
  | .delete chain body => (chain, body)
  | .insert chain body => (chain, body)

theorem update_place {current : Chains} {t : String × Rule} {rules : List Rule}
    (h : current t.1 = some rules) (first : Bool) :
    place first current t = Function.update current t.1
      (some (if t.2 ∈ rules ∧ first = false then rules else t.2 :: rules.filter (· ≠ t.2))) := by
  funext chain
  by_cases hc : chain = t.1
  · subst hc
    rw [place, if_pos rfl, h, Function.update_self, Option.map_some]
  · rw [place, if_neg hc, Function.update_of_ne hc]

theorem update_displace {current : Chains} {t : String × Rule} {rules : List Rule}
    (h : current t.1 = some rules) :
    displace current t = Function.update current t.1 (some (rules.filter (· ≠ t.2))) := by
  funext chain
  by_cases hc : chain = t.1
  · subst hc
    rw [displace, if_pos rfl, h, Function.update_self, Option.map_some]
  · rw [displace, if_neg hc, Function.update_of_ne hc]

/-- What one rule does: the chains, the flag, commands that replay, and no command for a rule that stays. -/
theorem planRule_spec {host : Chains} {s : Planned} {rule : Rule} {t : String × Rule} (first : Bool)
    (htarget : Firewall.target rule = .ok t) (hform : form t.2 = some t.2)
    (hchain : (s.current t.1).isSome) (hreplay : Replays host s.current s.commands) :
    ∃ s', planRule s (rule, first) = .ok s' ∧ s'.current = place first s.current t ∧
      s'.created = s.created ++ [!present s.current t] ∧ Replays host s'.current s'.commands ∧
      ∀ command ∈ s'.commands, command ∈ s.commands ∨
        command.target = t ∧ (first = true ∨ present s.current t = false) := by
  obtain ⟨rules, hrules⟩ := Option.isSome_iff_exists.mp hchain
  have hpresent : present s.current t = decide (t.2 ∈ rules) := by rw [present, hrules, Option.getD_some]
  have hself : Function.update s.current t.1 (some rules) = s.current := by
    rw [← hrules, Function.update_eq_self]
  have hlookup : lookup s.current t.1 = .ok rules := by rw [lookup, hrules]
  by_cases hstays : t.2 ∈ rules ∧ first = false
  · refine ⟨{ s with created := s.created ++ [decide (t.2 ∉ rules)] }, ?_, ?_, ?_, hreplay,
      fun command hc => .inl hc⟩
    · simp only [planRule, htarget, hlookup, bind, Except.bind, if_pos hstays]
      rfl
    · rw [update_place hrules, if_pos hstays, hself]
    · rw [hpresent, decide_not]
  · have hdeleted : Replays host
        (Function.update s.current t.1 (some (deleteAll t.1 t.2 rules.length (rules, s.commands)).1))
        (deleteAll t.1 t.2 rules.length (rules, s.commands)).2 :=
      Replays.deleteAll hform _ (hself.symm ▸ hreplay)
    have hinsert := hdeleted.insert (Function.update_self t.1 _ s.current) hform
    rw [Function.update_idem] at hinsert
    refine ⟨{
      current := Function.update s.current t.1
        (some (t.2 :: (deleteAll t.1 t.2 rules.length (rules, s.commands)).1))
      commands := (deleteAll t.1 t.2 rules.length (rules, s.commands)).2 ++ [.insert t.1 t.2]
      created := s.created ++ [decide (t.2 ∉ rules)] }, ?_, ?_, ?_, hinsert, ?_⟩
    · simp only [planRule, htarget, hlookup, bind, Except.bind, if_neg hstays]
      rfl
    · rw [update_place hrules, if_neg hstays, deleteAll_rules _ _ le_rfl]
    · rw [hpresent, decide_not]
    · intro command hc
      have hflag : first = true ∨ present s.current t = false := by
        rw [hpresent]
        cases first with
        | true => exact .inl rfl
        | false => exact .inr (decide_eq_false fun hmem => hstays ⟨hmem, rfl⟩)
      obtain hc | hc := List.mem_append.mp hc
      · obtain hc | rfl := mem_deleteAll hc
        · exact .inl hc
        · exact .inr ⟨rfl, hflag⟩
      · rw [List.mem_singleton.mp hc]
        exact .inr ⟨rfl, hflag⟩

theorem planRemoval_spec {host : Chains} {s : Planned} {rule : Rule} {t : String × Rule}
    (htarget : Firewall.target rule = .ok t) (hform : form t.2 = some t.2)
    (hchain : (s.current t.1).isSome) (hreplay : Replays host s.current s.commands) :
    ∃ s', planRemoval s rule = .ok s' ∧ s'.current = displace s.current t ∧ s'.created = s.created ∧
      Replays host s'.current s'.commands ∧
      ∀ command ∈ s'.commands, command ∈ s.commands ∨ command.target = t := by
  obtain ⟨rules, hrules⟩ := Option.isSome_iff_exists.mp hchain
  have hself : Function.update s.current t.1 (some rules) = s.current := by
    rw [← hrules, Function.update_eq_self]
  have hlookup : lookup s.current t.1 = .ok rules := by rw [lookup, hrules]
  have hdeleted : Replays host
      (Function.update s.current t.1 (some (deleteAll t.1 t.2 rules.length (rules, s.commands)).1))
      (deleteAll t.1 t.2 rules.length (rules, s.commands)).2 :=
    Replays.deleteAll hform _ (hself.symm ▸ hreplay)
  refine ⟨{ s with
    current := Function.update s.current t.1 (some (deleteAll t.1 t.2 rules.length (rules, s.commands)).1)
    commands := (deleteAll t.1 t.2 rules.length (rules, s.commands)).2 }, ?_, ?_, rfl, hdeleted, ?_⟩
  · simp only [planRemoval, htarget, hlookup, bind, Except.bind]
    rfl
  · rw [update_displace hrules, deleteAll_rules _ _ le_rfl]
  · intro command hc
    obtain hc | rfl := mem_deleteAll hc
    · exact .inl hc
    · exact .inr rfl

theorem isSome_place (first : Bool) (current : Chains) (t : String × Rule) (chain : String) :
    (place first current t chain).isSome = (current chain).isSome := by
  rw [place]
  split
  · exact Option.isSome_map
  · rfl

theorem isSome_displace (current : Chains) (t : String × Rule) (chain : String) :
    (displace current t chain).isSome = (current chain).isSome := by
  rw [displace]
  split
  · exact Option.isSome_map
  · rfl

/-- A rule that is placed changes no other rule's presence. -/
theorem present_place {t u : String × Rule} (h : u ≠ t) (first : Bool) (current : Chains) :
    present (place first current t) u = present current u := by
  rw [present, present, place]
  split
  · rename_i hchain
    have hbody : u.2 ≠ t.2 := fun hb => h (Prod.ext hchain hb)
    cases hc : current u.1 with
    | none => rfl
    | some rules =>
      simp only [Option.map_some, Option.getD_some]
      congr 1
      split
      · rfl
      · simp [hbody]
  · rfl

theorem present_foldl_place {ts : List (String × Rule)} {t : String × Rule} (h : t ∉ ts) (first : Bool)
    (current : Chains) : present (ts.foldl (place first) current) t = present current t := by
  induction ts generalizing current with
  | nil => rfl
  | cons u ts ih =>
    obtain ⟨hne, hnot⟩ := not_or.mp (mt List.mem_cons.mpr h)
    rw [List.foldl_cons, ih hnot, present_place hne]

/-- The rules of a request that share their flag, one after the other. -/
theorem planRules_spec {host : Chains} (first : Bool) {rules : List Rule} {ts : List (String × Rule)}
    (htargets : List.Forall₂ (fun rule t => Firewall.target rule = .ok t) rules ts) (hnodup : ts.Nodup)
    (hform : ∀ t ∈ ts, form t.2 = some t.2) {s : Planned} (hchain : ∀ t ∈ ts, (s.current t.1).isSome)
    (hreplay : Replays host s.current s.commands) :
    ∃ s', (rules.map (·, first)).foldlM planRule s = .ok s' ∧ s'.current = ts.foldl (place first) s.current ∧
      s'.created = s.created ++ ts.map (!present s.current ·) ∧ Replays host s'.current s'.commands ∧
      ∀ command ∈ s'.commands, command ∈ s.commands ∨
        command.target ∈ ts ∧ (first = true ∨ present s.current command.target = false) := by
  induction htargets generalizing s with
  | nil => exact ⟨s, rfl, rfl, (List.append_nil _).symm, hreplay, fun command hc => .inl hc⟩
  | @cons rule t rules ts htarget htargets ih =>
    obtain ⟨hnot, hnodup⟩ := List.nodup_cons.mp hnodup
    obtain ⟨s₁, hrun₁, hcurrent₁, hcreated₁, hreplay₁, hcommands₁⟩ :=
      planRule_spec first htarget (hform t List.mem_cons_self) (hchain t List.mem_cons_self) hreplay
    have hpresent : ∀ u ∈ ts, present s₁.current u = present s.current u := fun u hu =>
      hcurrent₁ ▸ present_place (ne_of_mem_of_not_mem hu hnot) first s.current
    obtain ⟨s₂, hrun₂, hcurrent₂, hcreated₂, hreplay₂, hcommands₂⟩ := ih hnodup
      (fun u hu => hform u (List.mem_cons_of_mem _ hu))
      (fun u hu => by rw [hcurrent₁, isSome_place]; exact hchain u (List.mem_cons_of_mem _ hu)) hreplay₁
    refine ⟨s₂, ?_, ?_, ?_, hreplay₂, ?_⟩
    · rw [List.map_cons, List.foldlM_cons, hrun₁]
      exact hrun₂
    · rw [hcurrent₂, hcurrent₁, List.foldl_cons]
    · rw [hcreated₂, hcreated₁, List.map_cons, List.append_assoc, List.singleton_append,
        List.map_congr_left fun u hu => congrArg not (hpresent u hu)]
    · intro command hc
      obtain hc | ⟨hmem, hflag⟩ := hcommands₂ command hc
      · obtain hc | ⟨rfl, hflag⟩ := hcommands₁ command hc
        · exact .inl hc
        · exact .inr ⟨List.mem_cons_self, hflag⟩
      · exact .inr ⟨List.mem_cons_of_mem _ hmem, hpresent _ hmem ▸ hflag⟩

theorem planRemovals_spec {host : Chains} {rules : List Rule} {ts : List (String × Rule)}
    (htargets : List.Forall₂ (fun rule t => Firewall.target rule = .ok t) rules ts)
    (hform : ∀ t ∈ ts, form t.2 = some t.2) {s : Planned} (hchain : ∀ t ∈ ts, (s.current t.1).isSome)
    (hreplay : Replays host s.current s.commands) :
    ∃ s', rules.foldlM planRemoval s = .ok s' ∧ s'.current = ts.foldl displace s.current ∧
      s'.created = s.created ∧ Replays host s'.current s'.commands ∧
      ∀ command ∈ s'.commands, command ∈ s.commands ∨ command.target ∈ ts := by
  induction htargets generalizing s with
  | nil => exact ⟨s, rfl, rfl, rfl, hreplay, fun command hc => .inl hc⟩
  | @cons rule t rules ts htarget htargets ih =>
    obtain ⟨s₁, hrun₁, hcurrent₁, hcreated₁, hreplay₁, hcommands₁⟩ :=
      planRemoval_spec htarget (hform t List.mem_cons_self) (hchain t List.mem_cons_self) hreplay
    obtain ⟨s₂, hrun₂, hcurrent₂, hcreated₂, hreplay₂, hcommands₂⟩ := ih
      (fun u hu => hform u (List.mem_cons_of_mem _ hu))
      (fun u hu => by rw [hcurrent₁, isSome_displace]; exact hchain u (List.mem_cons_of_mem _ hu)) hreplay₁
    refine ⟨s₂, ?_, ?_, hcreated₂.trans hcreated₁, hreplay₂, ?_⟩
    · rw [List.foldlM_cons, hrun₁]
      exact hrun₂
    · rw [hcurrent₂, hcurrent₁, List.foldl_cons]
    · intro command hc
      obtain hc | hmem := hcommands₂ command hc
      · obtain hc | rfl := hcommands₁ command hc
        · exact .inl hc
        · exact .inr List.mem_cons_self
      · exact .inr (List.mem_cons_of_mem _ hmem)

end Planning

section Arrangement

/-- The bodies of a chain. -/
def bodies (ts : List (String × Rule)) (chain : String) : List Rule :=
  (ts.filter (·.1 = chain)).map Prod.snd

theorem mem_bodies {ts : List (String × Rule)} {chain : String} {body : Rule} :
    body ∈ bodies ts chain ↔ (chain, body) ∈ ts := by
  simp [bodies]

theorem bodies_cons_self (chain : String) (body : Rule) (ts : List (String × Rule)) :
    bodies ((chain, body) :: ts) chain = body :: bodies ts chain := by
  simp [bodies]

theorem bodies_cons_ne {t : String × Rule} {chain : String} (h : chain ≠ t.1) (ts : List (String × Rule)) :
    bodies (t :: ts) chain = bodies ts chain := by
  simp [bodies, Ne.symm h]

theorem nodup_bodies {ts : List (String × Rule)} (h : ts.Nodup) (chain : String) : (bodies ts chain).Nodup := by
  refine (h.filter _).map_on fun t ht u hu heq => ?_
  have htc : t.1 = chain := by simpa using (List.mem_filter.mp ht).2
  have huc : u.1 = chain := by simpa using (List.mem_filter.mp hu).2
  exact Prod.ext (htc.trans huc.symm) heq

/-- Rules that may stay where they are: the missing ones come to the head, the last one first. -/
theorem foldl_place_false {ts : List (String × Rule)} (h : ts.Nodup) (current : Chains) (chain : String) :
    ts.foldl (place false) current chain =
      (current chain).map fun rules => ((bodies ts chain).filter (· ∉ rules)).reverse ++ rules := by
  induction ts generalizing current with
  | nil =>
    rw [List.foldl_nil]
    simp [bodies]
  | cons t ts ih =>
    obtain ⟨hnot, hnodup⟩ := List.nodup_cons.mp h
    rw [List.foldl_cons, ih hnodup, place]
    by_cases hchain : chain = t.1
    · subst hchain
      rw [if_pos rfl, Option.map_map]
      congr 1
      funext rules
      have hcons : bodies (t :: ts) t.1 = t.2 :: bodies ts t.1 := bodies_cons_self t.1 t.2 ts
      rw [Function.comp_apply, hcons]
      by_cases hmem : t.2 ∈ rules
      · simp [hmem]
      · have hfilter : (bodies ts t.1).filter (· ∉ t.2 :: rules) = (bodies ts t.1).filter (· ∉ rules) := by
          refine List.filter_congr fun b hb => ?_
          have hne : b ≠ t.2 := fun heq => hnot (mem_bodies.mp (heq ▸ hb))
          simp [hne]
        have hself : rules.filter (· ≠ t.2) = rules :=
          List.filter_eq_self.mpr fun r hr => by simpa using ne_of_mem_of_not_mem hr hmem
        rw [if_neg (fun h => hmem h.1), hself, hfilter, List.filter_cons_of_pos (by simpa using hmem),
          List.reverse_cons, List.append_assoc, List.singleton_append]
    · rw [if_neg hchain, bodies_cons_ne hchain]

/-- Rules that have to be first: they are the head of their chain, the last one first. -/
theorem foldl_place_true {ts : List (String × Rule)} (h : ts.Nodup) (current : Chains) (chain : String) :
    ts.foldl (place true) current chain =
      (current chain).map fun rules => (bodies ts chain).reverse ++ rules.filter (· ∉ bodies ts chain) := by
  induction ts generalizing current with
  | nil =>
    rw [List.foldl_nil]
    simp [bodies]
  | cons t ts ih =>
    obtain ⟨hnot, hnodup⟩ := List.nodup_cons.mp h
    rw [List.foldl_cons, ih hnodup, place]
    by_cases hchain : chain = t.1
    · subst hchain
      rw [if_pos rfl, Option.map_map]
      congr 1
      funext rules
      have hcons : bodies (t :: ts) t.1 = t.2 :: bodies ts t.1 := bodies_cons_self t.1 t.2 ts
      have hhead : t.2 ∉ bodies ts t.1 := fun hb => hnot (mem_bodies.mp hb)
      rw [Function.comp_apply, hcons, if_neg (fun h => Bool.noConfusion h.2),
        List.filter_cons_of_pos (by simpa using hhead), List.filter_filter, List.reverse_cons,
        List.append_assoc, List.singleton_append]
      refine congrArg (_ ++ t.2 :: ·) (List.filter_congr fun r _ => ?_)
      simp [Bool.and_comm]
    · rw [if_neg hchain, bodies_cons_ne hchain]

theorem foldl_displace (ts : List (String × Rule)) (current : Chains) (chain : String) :
    ts.foldl displace current chain = (current chain).map (·.filter (· ∉ bodies ts chain)) := by
  induction ts generalizing current with
  | nil =>
    rw [List.foldl_nil]
    simp [bodies]
  | cons t ts ih =>
    rw [List.foldl_cons, ih, displace]
    by_cases hchain : chain = t.1
    · subst hchain
      have hcons : bodies (t :: ts) t.1 = t.2 :: bodies ts t.1 := bodies_cons_self t.1 t.2 ts
      rw [if_pos rfl, Option.map_map, hcons]
      congr 1
      funext rules
      rw [Function.comp_apply, List.filter_filter]
      refine List.filter_congr fun r _ => ?_
      simp [Bool.and_comm]
    · rw [if_neg hchain, bodies_cons_ne hchain]

/-- A chain as the request wants it: the rules that have to be first, the rules that were missing, and the
old rules without those and without the removals. -/
def arranged (keeps heads drops : List (String × Rule)) (chain : String) (rules : List Rule) : List Rule :=
  (bodies heads chain).reverse ++ ((bodies keeps chain).filter (· ∉ rules)).reverse ++
    rules.filter fun rule => rule ∉ bodies heads chain ∧ rule ∉ bodies drops chain

theorem foldl_arranged {keeps heads drops : List (String × Rule)} (hnodup : (keeps ++ heads).Nodup)
    (hapart : ∀ t ∈ keeps ++ heads, t ∉ drops) (current : Chains) (chain : String) :
    drops.foldl displace (heads.foldl (place true) (keeps.foldl (place false) current)) chain =
      (current chain).map (arranged keeps heads drops chain) := by
  obtain ⟨hkeeps, hheads, hdisjoint⟩ := List.nodup_append.mp hnodup
  rw [foldl_displace, foldl_place_true hheads, foldl_place_false hkeeps, Option.map_map, Option.map_map]
  congr 1
  funext rules
  simp only [Function.comp_apply, List.filter_append, List.filter_reverse, List.filter_filter, arranged,
    ← List.append_assoc]
  congr 1
  · congr 1
    · congr 1
      refine List.filter_eq_self.mpr fun b hb => ?_
      have hmem : (chain, b) ∉ drops := hapart _ (List.mem_append_right _ (mem_bodies.mp hb))
      simpa [mem_bodies] using hmem
    · congr 1
      refine List.filter_congr fun b hb => ?_
      have hkeep : (chain, b) ∈ keeps := mem_bodies.mp hb
      have hdrop : (chain, b) ∉ drops := hapart _ (List.mem_append_left _ hkeep)
      have hhead : (chain, b) ∉ heads := fun hh => hdisjoint _ hkeep _ hh rfl
      simp [mem_bodies, hdrop, hhead]
  · refine List.filter_congr fun r _ => ?_
    simp [Bool.and_comm]

/-- A rule that may stay is in the chain: either it was there, or it was added. -/
theorem mem_arranged_of_keep {keeps heads drops : List (String × Rule)} (hnodup : (keeps ++ heads).Nodup)
    (hapart : ∀ t ∈ keeps ++ heads, t ∉ drops) {chain : String} {body : Rule} (h : (chain, body) ∈ keeps)
    (rules : List Rule) : body ∈ arranged keeps heads drops chain rules := by
  have hdrop : (chain, body) ∉ drops := hapart _ (List.mem_append_left _ h)
  have hhead : (chain, body) ∉ heads := fun hh => (List.nodup_append.mp hnodup).2.2 _ h _ hh rfl
  by_cases hmem : body ∈ rules
  · exact List.mem_append_right _ (List.mem_filter.mpr ⟨hmem, by simp [mem_bodies, hdrop, hhead]⟩)
  · refine List.mem_append_left _ (List.mem_append_right _ (List.mem_reverse.mpr (List.mem_filter.mpr ?_)))
    exact ⟨mem_bodies.mpr h, by simpa using hmem⟩

/-- The part of an arranged chain behind its head has none of the rules that are first, and no removal. -/
theorem not_mem_rest {keeps heads drops : List (String × Rule)} (hnodup : (keeps ++ heads).Nodup)
    (hapart : ∀ t ∈ keeps ++ heads, t ∉ drops) {chain : String} {rules : List Rule} {body : Rule}
    (h : body ∈ ((bodies keeps chain).filter (· ∉ rules)).reverse ++
      rules.filter fun rule => rule ∉ bodies heads chain ∧ rule ∉ bodies drops chain) :
    body ∉ bodies heads chain ∧ body ∉ bodies drops chain := by
  obtain h | h := List.mem_append.mp h
  · have hkeep : (chain, body) ∈ keeps := mem_bodies.mp (List.mem_filter.mp (List.mem_reverse.mp h)).1
    exact ⟨fun hh => (List.nodup_append.mp hnodup).2.2 _ hkeep _ (mem_bodies.mp hh) rfl,
      fun hd => hapart _ (List.mem_append_left _ hkeep) (mem_bodies.mp hd)⟩
  · simpa using (List.mem_filter.mp h).2

/-- A chain that is arranged stays as it is. -/
theorem arranged_arranged {keeps heads drops : List (String × Rule)} (hnodup : (keeps ++ heads).Nodup)
    (hapart : ∀ t ∈ keeps ++ heads, t ∉ drops) (chain : String) (rules : List Rule) :
    arranged keeps heads drops chain (arranged keeps heads drops chain rules) =
      arranged keeps heads drops chain rules := by
  have hkeeps : (bodies keeps chain).filter (· ∉ arranged keeps heads drops chain rules) = [] := by
    refine List.filter_eq_nil_iff.mpr fun b hb => ?_
    simpa using mem_arranged_of_keep hnodup hapart (mem_bodies.mp hb) rules
  have hheads : (bodies heads chain).reverse.filter
      (fun rule => rule ∉ bodies heads chain ∧ rule ∉ bodies drops chain) = [] := by
    refine List.filter_eq_nil_iff.mpr fun b hb => ?_
    simp [List.mem_reverse.mp hb]
  rw [arranged, hkeeps, List.reverse_nil, List.append_nil]
  nth_rewrite 1 [arranged]
  rw [List.append_assoc, List.filter_append, hheads, List.nil_append, arranged, List.append_assoc]
  refine congrArg (_ ++ ·) (List.filter_eq_self.mpr fun b hb => ?_)
  simpa using not_mem_rest hnodup hapart hb

end Arrangement

section Text

/-- A rule whose tokens stay on one line. -/
def Unbroken (rule : Rule) : Prop := ∀ token ∈ rule, ∀ c ∈ token.toList, Shell.isBreak c = false

theorem isBreak_of_not_isSpace {c : Char} (h : Text.isSpace c = false) : Shell.isBreak c = false := by
  rw [← Bool.not_eq_true] at h ⊢
  intro hbreak
  apply h
  simp only [Shell.isBreak, Text.isSpace, Bool.or_eq_true, Bool.and_eq_true, decide_eq_true_eq, beq_iff_eq]
    at hbreak ⊢
  omega

theorem unbroken_of_checkRule {rule : Rule} (h : checkRule rule = .ok ()) : Unbroken rule := by
  have hplain : (rule.any fun token => token.toList.isEmpty || token.toList.any Text.isSpace) = false := by
    rw [← Bool.not_eq_true]
    intro hany
    cases rule with
    | nil => simp at hany
    | cons chain rest =>
      rw [checkRule] at h
      by_cases hchain : chain ∉ ["DOCKER-USER", "INPUT"]
      · simp only [if_pos hchain] at h
        cases h
      · simp only [if_neg hchain, hany] at h
        cases h
  intro token htoken c hc
  have htext := List.any_eq_false.mp hplain token htoken
  simp only [Bool.or_eq_true, not_or, Bool.not_eq_true, List.any_eq_false] at htext
  exact isBreak_of_not_isSpace (by simpa using htext.2 c hc)

open scoped List in
theorem dropTcp_sublist {rule rest : Rule} (h : dropTcp rule = some rest) : rest <+ rule := by
  induction rule using dropTcp.induct generalizing rest with
  | case1 a b tail hpair =>
    rw [dropTcp, if_pos hpair] at h
    cases h
    exact (List.sublist_cons_self b tail).cons a
  | case2 a b tail hpair ih =>
    rw [dropTcp, if_neg hpair] at h
    obtain ⟨r, hr, rfl⟩ := Option.map_eq_some_iff.mp h
    exact (ih hr).cons_cons a
  | case3 rule hshort =>
    rw [dropTcp.eq_2 _ hshort] at h
    cases h

open scoped List in
theorem stripTcp_sublist (n : ℕ) (rule : Rule) : stripTcp n rule <+ rule := by
  induction n generalizing rule with
  | zero => exact List.Sublist.refl rule
  | succ n ih =>
    rw [stripTcp]
    split
    · rename_i rest hdrop
      exact (ih rest).trans (dropTcp_sublist hdrop)
    · exact List.Sublist.refl rule

theorem mem_sortStates {value : String} {c : Char} (h : c ∈ (sortStates value).toList) :
    c = ',' ∨ c ∈ value.toList := by
  rw [sortStates, ← states, String.toList_intercalate, show ",".toList = [','] from by decide] at h
  obtain h | ⟨l, hl, h⟩ := Shell.mem_intercalate h
  · exact .inl (List.mem_singleton.mp h)
  · obtain ⟨state, hstate, rfl⟩ := List.mem_map.mp hl
    rw [states, List.mem_insertionSort] at hstate
    obtain ⟨piece, hpiece, rfl⟩ := List.mem_map.mp hstate
    rw [String.toList_ofList] at h
    have hmem := Shell.mem_intercalate_of_mem [','] hpiece h
    rw [List.intercalate_splitOn] at hmem
    exact .inr hmem

theorem Unbroken.sortCtstate {rule sorted : Rule} (h : Unbroken rule) (hsort : sortCtstate rule = some sorted) :
    Unbroken sorted := by
  induction rule generalizing sorted with
  | nil => cases hsort; exact h
  | cons token rest ih =>
    have hrest : Unbroken rest := fun t ht => h t (List.mem_cons_of_mem _ ht)
    rw [Firewall.sortCtstate] at hsort
    obtain ⟨r, hr, rfl⟩ := Option.map_eq_some_iff.mp hsort
    have hr : Unbroken r := by
      split at hr
      · cases rest with
        | nil => cases hr
        | cons value rest =>
          cases hr
          intro t ht c hc
          obtain rfl | ht := List.mem_cons.mp ht
          · obtain rfl | hc := mem_sortStates hc
            · decide
            · exact hrest value List.mem_cons_self c hc
          · exact hrest t (List.mem_cons_of_mem _ ht) c hc
      · exact ih hrest hr
    intro t ht
    obtain rfl | ht := List.mem_cons.mp ht
    · exact h t List.mem_cons_self
    · exact hr t ht

theorem Unbroken.target {rule body : Rule} {chain : String} (h : Unbroken rule)
    (htarget : target rule = .ok (chain, body)) : Unbroken (chain :: body) := by
  refine Unbroken.sortCtstate (fun t ht => h t ?_) (canonical_eq_ok.mp (canonical_of_target htarget))
  exact (stripTcp_sublist _ rule).subset ht

/-- The text of an update is read as its commands. -/
theorem restore_update {commands : List Command} (hne : commands ≠ [])
    (h : ∀ command ∈ commands, Unbroken (command.target.1 :: command.target.2)) (host : Chains) :
    restore host ("*filter\n" ++ "\n".intercalate (commands.map Command.line) ++ "\nCOMMIT\n") =
      commands.foldlM Command.apply host := by
  have hline : ∀ command ∈ commands, ∀ c ∈ command.line.toList, Shell.isBreak c = false := by
    intro command hc c hmem
    have htokens := h command hc
    cases command with
    | delete chain body =>
      rw [Command.line, String.toList_append, List.mem_append] at hmem
      obtain hmem | hmem := hmem
      · exact Shell.unbroken_iff.mp (show Shell.unbroken "-D " = true by decide) c hmem
      · exact Shell.join_unbroken htokens c hmem
    | insert chain body =>
      rw [Command.line, String.toList_append, List.mem_append] at hmem
      obtain hmem | hmem := hmem
      · exact Shell.unbroken_iff.mp (show Shell.unbroken "-I " = true by decide) c hmem
      · refine Shell.join_unbroken (fun t ht => ?_) c hmem
        simp only [List.mem_cons] at ht
        obtain rfl | rfl | ht := ht
        · exact htokens t List.mem_cons_self
        · exact Shell.unbroken_iff.mp (by decide)
        · exact htokens t (List.mem_cons_of_mem _ ht)
  have hchars : ("*filter\n" ++ "\n".intercalate (commands.map Command.line) ++ "\nCOMMIT\n").toList =
      (("*filter".toList :: commands.map fun c => c.line.toList) ++ ["COMMIT".toList]).flatMap
        fun l => l ++ ['\n'] := by
    have hlines : (commands.map fun c => c.line.toList) ≠ [] := by simpa using hne
    rw [String.toList_append, String.toList_append, String.toList_intercalate, List.map_map,
      show "\n".toList = ['\n'] from by decide, show "*filter\n".toList = "*filter".toList ++ ['\n'] from by decide,
      show "\nCOMMIT\n".toList = ['\n'] ++ ("COMMIT".toList ++ ['\n']) from by decide, ← List.append_assoc,
      List.append_assoc _ _ ['\n'], List.flatMap_append, List.flatMap_cons, List.flatMap_singleton]
    congr 2
    exact Shell.intercalate_append_newline hlines
  have hsplit : Shell.splitlines ("*filter\n" ++ "\n".intercalate (commands.map Command.line) ++ "\nCOMMIT\n") =
      "*filter" :: (commands.map Command.line ++ ["COMMIT"]) := by
    rw [Shell.splitlines, hchars, Shell.linesFrom_flatMap]
    · simp [Function.comp_def]
    · intro l hl
      simp only [List.mem_append, List.mem_cons, List.mem_map, List.not_mem_nil, or_false] at hl
      obtain (rfl | ⟨command, hc, rfl⟩) | rfl := hl
      · exact Shell.unbroken_iff.mp (by decide)
      · exact hline command hc
      · exact Shell.unbroken_iff.mp (by decide)
  rw [restore]
  simp only [hsplit, List.head?_cons, List.getLast?_cons, List.getLast?_append,
    List.tail_cons, List.dropLast_concat, List.foldlM_map, read_line, Option.bind_some]
  simp

end Text

section Frame

theorem filter_eraseP {keep erase : Rule → Bool} {rules : List Rule}
    (h : ∀ rule, erase rule = true → keep rule = false) : (rules.eraseP erase).filter keep = rules.filter keep := by
  induction rules with
  | nil => rfl
  | cons r rules ih =>
    by_cases hr : erase r = true
    · rw [List.eraseP_cons_of_pos hr, List.filter_cons_of_neg (by simpa using h r hr)]
    · rw [List.eraseP_cons_of_neg hr, List.filter_cons, List.filter_cons, ih]

/-- A command leaves the rules alone that do not have its form. -/
theorem apply_frame {host after : Chains} {command : Command} (h : command.apply host = some after)
    {chain : String} {keep : Rule → Bool}
    (hkeep : command.target.1 = chain → ∀ rule, form rule = form command.target.2 → keep rule = false) :
    (after chain).map (·.filter keep) = (host chain).map (·.filter keep) := by
  cases command with
  | delete c body =>
    simp only [Command.apply, Option.bind_eq_bind, Option.bind_eq_some_iff] at h
    obtain ⟨rules, hrules, h⟩ := h
    split at h
    · cases h
      by_cases hc : chain = c
      · subst hc
        rw [Function.update_self, hrules, Option.map_some, Option.map_some]
        exact congrArg some (filter_eraseP fun r hr => hkeep rfl r (of_decide_eq_true hr))
      · rw [Function.update_of_ne hc]
    · cases h
  | insert c body =>
    simp only [Command.apply, Option.bind_eq_bind, Option.bind_eq_some_iff] at h
    obtain ⟨rules, hrules, h⟩ := h
    cases h
    by_cases hc : chain = c
    · subst hc
      have hbody : keep body = false := hkeep rfl body rfl
      rw [Function.update_self, hrules, Option.map_some, Option.map_some,
        List.filter_cons_of_neg (by simpa using hbody)]
    · rw [Function.update_of_ne hc]

theorem run_frame {commands : List Command} {host after : Chains}
    (h : commands.foldlM Command.apply host = some after) {chain : String} {keep : Rule → Bool}
    (hkeep : ∀ command ∈ commands, command.target.1 = chain →
      ∀ rule, form rule = form command.target.2 → keep rule = false) :
    (after chain).map (·.filter keep) = (host chain).map (·.filter keep) := by
  induction commands generalizing host with
  | nil => cases h; rfl
  | cons command commands ih =>
    rw [List.foldlM_cons, Option.bind_eq_bind, Option.bind_eq_some_iff] at h
    obtain ⟨host', happly, h⟩ := h
    rw [ih h fun c hc => hkeep c (List.mem_cons_of_mem _ hc), apply_frame happly (hkeep command List.mem_cons_self)]

/-- The rules that the host lists: each has a canonical form and stays on one line. -/
def Listed (rule : Rule) : Prop := (form rule).isSome ∧ Unbroken rule

instance : DecidablePred Listed := fun rule =>
  decidable_of_iff ((form rule).isSome ∧ rule.all Shell.unbroken = true)
    (and_congr_right fun _ => List.all_eq_true.trans (forall₂_congr fun _ _ => Shell.unbroken_iff))

theorem apply_listed {host after : Chains} {command : Command} (h : command.apply host = some after)
    (hcommand : Listed command.target.2) (hlisted : ∀ chain rules, host chain = some rules → ∀ r ∈ rules, Listed r) :
    ∀ chain rules, after chain = some rules → ∀ r ∈ rules, Listed r := by
  intro chain rules' hafter r hr
  cases command with
  | delete c body =>
    simp only [Command.apply, Option.bind_eq_bind, Option.bind_eq_some_iff] at h
    obtain ⟨rules, hrules, h⟩ := h
    split at h
    · cases h
      by_cases hc : chain = c
      · subst hc
        rw [Function.update_self] at hafter
        cases hafter
        exact hlisted chain rules hrules r (List.mem_of_mem_eraseP hr)
      · rw [Function.update_of_ne hc] at hafter
        exact hlisted chain rules' hafter r hr
    · cases h
  | insert c body =>
    simp only [Command.apply, Option.bind_eq_bind, Option.bind_eq_some_iff] at h
    obtain ⟨rules, hrules, h⟩ := h
    cases h
    by_cases hc : chain = c
    · subst hc
      rw [Function.update_self] at hafter
      cases hafter
      obtain rfl | hr := List.mem_cons.mp hr
      · exact hcommand
      · exact hlisted chain rules hrules r hr
    · rw [Function.update_of_ne hc] at hafter
      exact hlisted chain rules' hafter r hr

theorem run_listed {commands : List Command} {host after : Chains}
    (h : commands.foldlM Command.apply host = some after)
    (hcommands : ∀ command ∈ commands, Listed command.target.2)
    (hlisted : ∀ chain rules, host chain = some rules → ∀ r ∈ rules, Listed r) :
    ∀ chain rules, after chain = some rules → ∀ r ∈ rules, Listed r := by
  induction commands generalizing host with
  | nil => cases h; exact hlisted
  | cons command commands ih =>
    rw [List.foldlM_cons, Option.bind_eq_bind, Option.bind_eq_some_iff] at h
    obtain ⟨host', happly, h⟩ := h
    exact ih h (fun c hc => hcommands c (List.mem_cons_of_mem _ hc))
      (apply_listed happly (hcommands command List.mem_cons_self) hlisted)

end Frame

end Soveren.Firewall
