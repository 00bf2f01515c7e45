import ParallelGdb.Slave.Arguments
import ParallelGdb.Startup.Command

/-!
# From the dialog to GDB

The launcher executes the words of the command behind its own. The slave reads them
with `getopt` and passes the target and its arguments on to GDB.
-/

namespace ParallelGdb.Startup

open Library.CString Library.Words Slave

/-- The words the launcher executes. -/
def slaveArgv (launcher : Launcher) (v : StartupValues) : List Bytes :=
  ((tokens (getCmd v)).map cstr).drop
    (launcherWords launcher v ++ words isBlank v.launcherArgs).length

/-- The configuration arrives at the slave and at GDB. -/
def Delivered (launcher : Launcher) (v : StartupValues) (ttyTrgt : Bytes) : Prop :=
  ∃ s, parseClArgs (slaveArgv launcher v) = .ok s ∧ s.ipAddr = some v.ipAddress ∧
    s.basePortStr = some (decimal v.basePort) ∧ s.target = some v.targetPath ∧
    s.argv.drop s.argsOffset.toNat = words isBlank v.targetArgs ∧
    ∃ front, s.startGdb ttyTrgt =
      some (front ++ (v.targetPath :: words isBlank v.targetArgs).map some ++ [none])

/-- A text that is one word of the command, and ends with it. -/
def IsWord (text : Bytes) : Prop := text ≠ [] ∧ ∀ c ∈ text, isBlank c = false ∧ c ≠ 0

/-- Options of which the last waits for a value and takes the `-i`, and an address
that is read as the option behind it. -/
def TakesAddress (options : List Bytes) (ip : Bytes) : Prop :=
  ∃ front os c d value, options = front ++ [[code '-', c]] ∧ Options front os ∧
    takesValue c = true ∧ c ≠ code 'i' ∧ lastValue (code 'i') os = some ip ∧
    ip = code '-' :: d :: value ∧ takesValue d = true ∧ d ≠ code 'i' ∧ value ≠ []

/-- The texts that survive the way through the command. -/
structure Deliverable (v : StartupValues) : Prop where
  ipAddress : IsWord v.ipAddress
  targetPath : IsWord v.targetPath
  operand : isOperand v.targetPath = true
  targetArgs : 0 ∉ v.targetArgs
  slavePath : ∃ slave options, (words isBlank v.slavePath).map cstr = slave :: options ∧
    ((∃ os, Options options os) ∨ TakesAddress options v.ipAddress)

section Words

variable {text : Bytes} {v : StartupValues} {launcher : Launcher}

theorem IsWord.words (h : IsWord text) : (words isBlank text).map cstr = [text] := by
  rw [words_of_forall (fun c hc => (h.2 c hc).1) h.1, List.map_singleton,
    cstr_of_forall fun c hc => (h.2 c hc).2]

/-- The characters of the argument vector. -/
theorem clean_of_mem {word : Bytes} (h : word ∈ (words isBlank text).map cstr) :
    ∀ c ∈ word, isBlank c = false ∧ c ≠ 0 := by
  obtain ⟨w, hw, rfl⟩ := List.mem_map.mp h
  intro c hc
  refine ⟨(mem_words hw).2.1 c ((List.takeWhile_prefix _).subset hc), ?_⟩
  simpa using List.mem_takeWhile_imp hc

/-- A NUL in the text cuts a word. -/
theorem nul_not_mem (h : (words isBlank text).map cstr = words isBlank text) : 0 ∉ text := by
  intro hnul
  obtain ⟨w, hw, hmem⟩ := exists_mem_wordsFrom (by decide : isBlank 0 = false) [] text
    (Or.inr hnul)
  have hcut : cstr w = w := List.map_inj_left.mp (h.trans (List.map_id _).symm) w hw
  rw [← hcut] at hmem
  simpa using List.mem_takeWhile_imp hmem

/-- The text of a port is a word that is no option. -/
theorem port_word {port : Int} (h : 0 ≤ port) :
    isOperand (decimal port) = true ∧ decimal port ≠ ascii "--" ∧ IsWord (decimal port) := by
  obtain ⟨k, rfl⟩ := Int.eq_ofNat_of_zero_le h
  have hdigits : ∀ c ∈ decimal (k : Int), isDigit c = true := isDigit_of_mem_natDigits k
  have hminus : ∀ c ∈ decimal (k : Int), c ≠ code '-' :=
    fun c hc => (isDigit_facts (hdigits c hc)).2.1
  obtain ⟨c, rest, hcons⟩ := List.exists_cons_of_ne_nil (decimal_ne_nil (k : Int))
  have hc : c ≠ code '-' := hminus c (by simp [hcons])
  refine ⟨?_, ?_, decimal_ne_nil _, fun c hc => ⟨not_isBlank_decimal _ c hc, ?_⟩⟩
  · rw [hcons]
    simp [isOperand, hc]
  · rw [hcons]
    intro heq
    exact hc (List.cons.inj heq).1
  · rintro rfl
    exact absurd (hdigits 0 hc) (by decide)

theorem slaveArgv_eq (h : v.Launches launcher) (hcustom : launcher ≠ .custom)
    (hport : 0 ≤ v.basePort) :
    slaveArgv launcher v = (words isBlank v.slavePath).map cstr ++
      (ascii "-i" :: ((words isBlank v.ipAddress).map cstr ++
        (ascii "-p" :: decimal v.basePort :: ((words isBlank v.targetPath).map cstr ++
          (words isBlank v.targetArgs).map cstr)))) := by
  have hcut : cstr (decimal v.basePort) = decimal v.basePort :=
    cstr_of_forall fun c hc => ((port_word hport).2.2.2 c hc).2
  have hi : cstr (ascii "-i") = ascii "-i" := by decide
  have hp : cstr (ascii "-p") = ascii "-p" := by decide
  rw [slaveArgv, tokens_getCmd h hcustom, configuredWords, if_neg hcustom, List.map_append,
    ← List.length_map cstr, List.drop_left, slaveWords]
  simp only [List.map_append, List.map_cons, hcut, hi, hp, List.append_assoc,
    List.cons_append, List.nil_append]

end Words

section Delivery

variable {v : StartupValues} {launcher : Launcher} {ttyTrgt : Bytes}

/-- What is read of the address and the port where the address is no value. -/
theorem options_address {ip port : Bytes} (hport : isOperand port = true)
    {os : List (UInt8 × Bytes)} (h : Options [ip, ascii "-p", port] os) :
    ∃ c value, ip = code '-' :: c :: value ∧ takesValue c = true ∧ value ≠ [] ∧
      os = [(c, value), (code 'p', port)] := by
  have hend : ∀ {os}, ¬ Options [port] os := by
    intro os hos
    rw [hos.inv.1] at hport
    cases hport
  obtain ⟨-, c, value, os', hc, rfl, ⟨hip, hvalue, hrest⟩ | ⟨words, -, hwords, hrest⟩⟩ := h.inv
  · obtain ⟨-, d, more, os, -, rfl, ⟨hp, hmore, -⟩ | ⟨words, hp, hwords, hrest⟩⟩ := hrest.inv
    · have hlength := congrArg List.length hp
      rw [List.length_cons, List.length_cons, ascii, List.length_map] at hlength
      exact absurd (List.length_eq_zero_iff.mp (by simpa using hlength.symm)) hmore
    · obtain ⟨rfl, rfl⟩ := List.cons.inj hwords
      have hd : code 'p' = d := (List.cons.inj (List.cons.inj hp).2).1
      cases hrest
      exact ⟨c, value, hip, hc, hvalue, by rw [hd]⟩
  · obtain ⟨rfl, rfl⟩ := List.cons.inj hwords
    exact absurd hrest hend

/-- The slave finds everything where the words are in order. -/
theorem delivered_of_options {slave : Bytes} {front : List Bytes} {os : List (UInt8 × Bytes)}
    (hargv : slaveArgv launcher v = slave :: (front ++ v.targetPath :: words isBlank v.targetArgs))
    (h : Options front os) (htarget : isOperand v.targetPath = true)
    (hip : lastValue (code 'i') os = some v.ipAddress)
    (hport : lastValue (code 'p') os = some (decimal v.basePort)) :
    Delivered launcher v ttyTrgt := by
  have hparsed := @parseClArgs_options slave v.targetPath front (words isBlank v.targetArgs) os h
    htarget (by simp [hip]) (by simp [hport])
  obtain ⟨hsame, hips, hports⟩ := setOptions_values os { argv := slaveArgv launcher v }
  rw [← hargv] at hparsed
  have hdrop : (slaveArgv launcher v).drop (front.length + 2) = words isBlank v.targetArgs := by
    rw [hargv]
    simp
  have hlength : front.length + 2 ≤ (slaveArgv launcher v).length := by
    rw [hargv]
    simp
  refine ⟨_, hparsed, hips.trans ?_, hports.trans ?_, rfl, ?_, ?_⟩
  · rw [hip, Option.some_or]
  · rw [hport, Option.some_or]
  · exact (congrArg (List.drop _) hsame).trans hdrop
  · refine (startGdb_eq (Nat.cast_succ (front.length + 1)).symm ?_ ttyTrgt).imp fun pre hpre =>
      hpre.trans ?_
    · exact hlength.trans_eq (congrArg List.length hsame).symm
    · rw [show (setOptions os { argv := slaveArgv launcher v }).argv.drop (front.length + 2) = _
        from (congrArg (List.drop _) hsame).trans hdrop]
      rfl

/-- An element of which all that follows is as long as the last part is the last of the
other parts. -/
theorem position_of_drop {α : Type*} {front back args : List α} {i : Nat} {a : α}
    (hget : (front ++ back)[i]? = some a) (hdrop : (front ++ back).drop (i + 1) = args)
    (hlength : args.length = back.length) : back = args ∧ front = front.take i ++ [a] ∧
      front.length = i + 1 := by
  obtain ⟨hi, -⟩ := List.getElem?_eq_some_iff.mp hget
  have hcount := congrArg List.length hdrop
  rw [List.length_drop, List.length_append, hlength] at hcount
  rw [List.length_append] at hi
  have hfront : front.length = i + 1 := by omega
  rw [List.getElem?_append_left (by omega)] at hget
  refine ⟨?_, ?_, hfront⟩
  · rw [← hdrop, ← hfront, List.drop_left]
  · have htake := List.take_add_one (l := front) (i := i)
    rw [hget, ← hfront, List.take_length] at htake
    exact htake

/-- What the slave has read where it found everything; `front` are the words before
those of the target. -/
theorem Delivered.read (h : Delivered launcher v ttyTrgt) {front : List Bytes} {port : Bytes}
    (hargv : slaveArgv launcher v = front ++ (words isBlank v.targetPath).map cstr ++
      (words isBlank v.targetArgs).map cstr)
    (hlast : front.getLast? = some port) (hport : IsWord port) (hend : port ≠ ascii "--")
    (hfront : 2 ≤ front.length) (htarget : v.targetPath ≠ []) :
    IsWord v.targetPath ∧ isOperand v.targetPath = true ∧ 0 ∉ v.targetArgs ∧
      ∃ os, Options front.tail os ∧ lastValue (code 'i') os = some v.ipAddress := by
  obtain ⟨s, hs, hip, -, htrgt, hdrop, -⟩ := h
  obtain ⟨pre, rest, os, optind, target, htail, hpre, hstop, hget, rfl⟩ := parseClArgs_ok hs
  obtain ⟨hsame, hips, -⟩ := setOptions_values os { argv := slaveArgv launcher v }
  obtain rfl : target = v.targetPath := Option.some.inj htrgt
  have hdrop' : (slaveArgv launcher v).drop (optind + 1) = words isBlank v.targetArgs :=
    (congrArg (List.drop (optind + 1)) hsame).symm.trans hdrop
  rw [hargv] at hget hdrop'
  obtain ⟨hargs, hsplit, hcount⟩ := position_of_drop hget hdrop' (by simp)
  have hword : IsWord v.targetPath ∧ (words isBlank v.targetPath).map cstr = [v.targetPath] := by
    rcases List.eq_nil_or_concat ((words isBlank v.targetPath).map cstr) with hnil | ⟨ts, t, hts⟩
    · rw [hnil, List.append_nil] at hsplit
      have hsame : port = v.targetPath := by
        rw [hsplit, List.getLast?_concat] at hlast
        exact (Option.some.inj hlast).symm
      rw [← hsame, hport.words] at hnil
      cases hnil
    · rw [List.concat_eq_append] at hts
      rw [hts, ← List.append_assoc] at hsplit
      obtain rfl : t = v.targetPath := (List.append_inj' hsplit rfl).2 |> List.singleton_inj.mp
      have hclean : IsWord v.targetPath := ⟨htarget, clean_of_mem (by rw [hts]; simp)⟩
      exact ⟨hclean, hclean.words⟩
  rw [hword.2] at hargv hcount
  obtain ⟨slave, front, rfl⟩ := List.exists_cons_of_ne_nil
    (List.ne_nil_of_length_pos (by omega : 0 < front.length))
  rw [List.length_append, List.length_cons, List.length_singleton] at hcount
  rw [List.append_assoc, List.cons_append, List.singleton_append] at hargv
  rw [hargv, List.tail_cons] at htail
  have hread : pre = front ∧ isOperand v.targetPath = true := by
    rcases hstop with ⟨hpos, hoperand⟩ | ⟨hpos, hdashes⟩
    · obtain ⟨hpre, hrest⟩ := List.append_inj htail (by omega)
      refine ⟨hpre.symm, hoperand _ ?_⟩
      rw [← hrest]
      rfl
    · exfalso
      obtain ⟨more, hmore, -⟩ | ⟨more, hmore, hrest⟩ := List.append_eq_append_iff.mp htail
      · rw [hmore, List.length_append] at hpos
        omega
      · rw [hmore, List.length_append] at hcount
        obtain ⟨word, rfl⟩ := List.length_eq_one_iff.mp (by omega : more.length = 1)
        rw [hrest] at hdashes
        rw [hmore, ← List.cons_append, List.getLast?_concat] at hlast
        exact hend ((Option.some.inj hlast).symm.trans (Option.some.inj hdashes))
  refine ⟨hword.1, hread.2, nul_not_mem hargs, os, hread.1 ▸ hpre, ?_⟩
  rw [← hip]
  exact (hips.trans Option.or_none).symm

theorem accepted_texts {d : DialogContent} (haccepted : readValues false d = (v, true))
    (hcustom : v.launcherCustom = false) : v.ipAddress ≠ [] ∧ v.targetPath ≠ [] := by
  obtain ⟨rfl, hnone⟩ := Prod.mk.inj haccepted
  rw [Bool.false_or, Option.isNone_iff_eq_none, refusal] at hnone
  split_ifs at hnone with _ _ hip _ htarget
  simp only [hcustom, Bool.not_false, Bool.true_and, decide_eq_true_eq] at hip htarget
  exact ⟨hip, htarget⟩

theorem Deliverable.delivered (h : Deliverable v)
    (hargv : slaveArgv launcher v = (words isBlank v.slavePath).map cstr ++
      (ascii "-i" :: ((words isBlank v.ipAddress).map cstr ++
        (ascii "-p" :: decimal v.basePort :: ((words isBlank v.targetPath).map cstr ++
          (words isBlank v.targetArgs).map cstr))))) :
    Delivered launcher v ttyTrgt := by
  obtain ⟨slave, options, hslave, hoptions⟩ := h.slavePath
  have hargs : (words isBlank v.targetArgs).map cstr = words isBlank v.targetArgs := by
    refine (List.map_congr_left fun w hw => ?_).trans (List.map_id _)
    refine cstr_of_forall fun c hc => ?_
    rintro rfl
    exact h.targetArgs ((mem_words hw).2.2 0 hc)
  have hfront : slaveArgv launcher v =
      slave :: ((options ++ [ascii "-i", v.ipAddress, ascii "-p", decimal v.basePort]) ++
        v.targetPath :: words isBlank v.targetArgs) := by
    rw [hargv, hslave, h.ipAddress.words, h.targetPath.words, hargs]
    simp only [List.cons_append, List.append_assoc, List.nil_append]
  have hi : takesValue (code 'i') = true := rfl
  have hp : takesValue (code 'p') = true := rfl
  obtain ⟨os, hos⟩ | ⟨front, os, c, d, value, rfl, hos, hc, hci, hip, hipd, hd, hdi, hvalue⟩ :=
    hoptions
  · refine delivered_of_options hfront (hos.append (.separate hi (.separate hp .nil))) h.operand
      ?_ ?_
    · rw [lastValue_append_cons]
      rfl
    · rw [lastValue_append_cons]
      rfl
  · -- The address is read as an option, so an earlier `-i` has to give it.
    have hread : Options (front ++ [[code '-', c]] ++
        [ascii "-i", v.ipAddress, ascii "-p", decimal v.basePort])
        (os ++ [(c, ascii "-i"), (d, value), (code 'p', decimal v.basePort)]) := by
      rw [List.append_assoc, hipd]
      exact hos.append (.separate hc (.attached hd hvalue (.separate hp .nil)))
    have hlater : lastValue (code 'i') [(d, value), (code 'p', decimal v.basePort)] = none := by
      refine (lastValue_append_cons _ [] _ _).trans ?_
      rw [if_neg hdi]
      rfl
    refine delivered_of_options hfront hread h.operand ?_ ?_
    · rw [lastValue_append_cons, hlater, Option.none_or, if_neg hci, hip]
    · rw [lastValue_append_cons]
      rfl

theorem mem_of_lastValue {c : UInt8} {os : List (UInt8 × Bytes)} {value : Bytes}
    (h : lastValue c os = some value) : (c, value) ∈ os := by
  obtain ⟨l₁, l₂, hsplit, -⟩ := List.lookup_eq_some_iff.mp h
  exact List.mem_reverse.mp (hsplit ▸ by simp)

/-- The words of the slave in front of the address are options. -/
theorem slavePath_of_options {options : List Bytes} {ip port : Bytes}
    (hport : isOperand port = true) {os : List (UInt8 × Bytes)}
    (h : Options (options ++ [ascii "-i", ip, ascii "-p", port]) os)
    (hip : lastValue (code 'i') os = some ip) :
    (∃ os, Options options os) ∨ TakesAddress options ip := by
  obtain ⟨os₁, -, -, hoptions, -⟩ |
    ⟨front, c, value, rest, os₁, os₂, rfl, hback, hc, rfl, hfront, hrest⟩ := h.split
  · exact Or.inl ⟨os₁, hoptions⟩
  · obtain ⟨rfl, rfl⟩ := List.cons.inj hback
    obtain ⟨d, text, hipd, hd, htext, rfl⟩ := options_address hport hrest
    have hlater : lastValue (code 'i') [(d, text), (code 'p', port)] =
        if d = code 'i' then some text else none :=
      (lastValue_append_cons _ [] _ _).trans rfl
    rw [lastValue_append_cons, hlater] at hip
    have hdi : d ≠ code 'i' := by
      rintro rfl
      rw [if_pos rfl, Option.some_or] at hip
      have hlength := congrArg List.length (Option.some.inj hip |>.trans hipd)
      rw [List.length_cons, List.length_cons] at hlength
      omega
    rw [if_neg hdi, Option.none_or] at hip
    have hci : c ≠ code 'i' := by
      rintro rfl
      rw [if_pos rfl] at hip
      have hnil : [] = text := (List.cons.inj (List.cons.inj
        ((Option.some.inj hip).trans hipd)).2).2
      exact htext hnil.symm
    rw [if_neg hci] at hip
    exact Or.inr ⟨front, os₁, c, d, text, rfl, hfront, hc, hci, hip, hipd, hd, hdi, htext⟩

/-- The configuration is delivered if and only if its texts survive the command. -/
theorem launch_delivers_iff {d : DialogContent} (hd : d = d.activate launcher)
    (hcustom : launcher ≠ .custom) (haccepted : readValues false d = (v, true))
    (ttyTrgt : Bytes) : Delivered launcher v ttyTrgt ↔ Deliverable v := by
  have hv : v = parseContent d := (congrArg Prod.fst haccepted).symm
  have hlaunches : v.Launches launcher := by
    rw [hv]
    exact ⟨congrArg DialogContent.launcherMpirun hd, congrArg DialogContent.launcherSrun hd,
      congrArg DialogContent.launcherCustom hd⟩
  obtain ⟨hoperand, hend, hport⟩ := port_word (readValues_accepted haccepted).2.2.1
  obtain ⟨hip, htarget⟩ :=
    accepted_texts haccepted (hlaunches.2.2.trans (decide_eq_false hcustom))
  have hargv := slaveArgv_eq hlaunches hcustom (readValues_accepted haccepted).2.2.1
  refine ⟨fun h => ?_, fun h => h.delivered hargv⟩
  have hfront : slaveArgv launcher v = ((words isBlank v.slavePath).map cstr ++ (ascii "-i" ::
      ((words isBlank v.ipAddress).map cstr ++ [ascii "-p"])) ++ [decimal v.basePort]) ++
      (words isBlank v.targetPath).map cstr ++ (words isBlank v.targetArgs).map cstr := by
    rw [hargv]
    simp
  obtain ⟨htargetWord, htargetOperand, hargs, os, hos, hlast⟩ :=
    h.read hfront List.getLast?_concat hport hend (by simp; omega) htarget
  have hipWord : IsWord v.ipAddress := by
    refine ⟨hip, ?_⟩
    obtain ⟨word, hword, hsuffix⟩ := hos.suffix (mem_of_lastValue hlast)
    have hclean : ∀ c ∈ word, isBlank c = false ∧ c ≠ 0 := by
      have hmem := List.mem_of_mem_tail hword
      simp only [List.mem_append, List.mem_cons, List.not_mem_nil, or_false] at hmem
      rcases hmem with (hmem | rfl | hmem | rfl) | rfl
      · exact clean_of_mem hmem
      · decide +kernel
      · exact clean_of_mem hmem
      · decide +kernel
      · exact hport.2
    exact fun c hc => hclean c (hsuffix.subset hc)
  refine ⟨hipWord, htargetWord, htargetOperand, hargs, ?_⟩
  rw [hipWord.words] at hos
  rcases hslave : (words isBlank v.slavePath).map cstr with _ | ⟨slave, options⟩
  · -- Without a slave the `-i` is the program, and the address would be an option.
    rw [hslave] at hos
    obtain ⟨c, value, hipc, -, hvalue, rfl⟩ := options_address hoperand hos
    exfalso
    have hvalues : lastValue (code 'i') [(c, value), (code 'p', decimal v.basePort)] =
        if c = code 'i' then some value else none :=
      (lastValue_append_cons _ [] _ _).trans rfl
    rw [hvalues] at hlast
    split_ifs at hlast
    have hlength := congrArg List.length ((Option.some.inj hlast).trans hipc)
    rw [List.length_cons, List.length_cons] at hlength
    omega
  · rw [hslave] at hos
    refine ⟨slave, options, rfl, slavePath_of_options hoperand ?_ hlast⟩
    simpa using hos

/-- Options for the rank behind the path of the slave. -/
def rankedDialog : DialogContent where
  launcherMpirun := true
  launcherSrun := false
  launcherCustom := false
  ssh := false
  launcherArgs := ascii "--oversubscribe"
  slavePath := ascii "./slave -k RANK  -zSIZE"
  ipAddress := ascii "localhost"
  targetPath := ascii "./a.out"
  targetArgs := ascii " -n  3"
  sshAddress := []
  sshUser := []
  sshPassword := []
  numberOfProcesses := ascii "4"
  processesPerNode := []
  numNodes := []
  basePort := ascii "2000"

theorem rankedDialog_delivered :
    Delivered .mpirun (readValues false rankedDialog).1 (ascii "/tmp/tty") := by
  have haccepted : readValues false rankedDialog = ((readValues false rankedDialog).1, true) :=
    Prod.ext rfl (by decide +kernel)
  have hslave : (words isBlank (readValues false rankedDialog).1.slavePath).map cstr =
      ascii "./slave" :: [ascii "-k", ascii "RANK", ascii "-zSIZE"] := by decide +kernel
  exact (launch_delivers_iff rfl (by decide) haccepted _).mpr
    ⟨⟨by decide, by decide +kernel⟩, ⟨by decide, by decide +kernel⟩, by decide, by decide +kernel,
      _, _, hslave, Or.inl ⟨_, .separate rfl (.attached rfl (by decide) .nil)⟩⟩

/-- The same with a target of which the path has a blank. -/
def blankTarget : DialogContent := { rankedDialog with targetPath := ascii "/home/me/my target" }

theorem blankTarget_cut :
    blankTarget = blankTarget.activate .mpirun ∧ (readValues false blankTarget).2 = true ∧
      ¬ Delivered .mpirun (readValues false blankTarget).1 (ascii "/tmp/tty") := by
  refine ⟨rfl, by decide +kernel, ?_⟩
  rintro ⟨s, hs, -, -, htarget, -⟩
  have hcut : (parseClArgs (slaveArgv .mpirun (readValues false blankTarget).1)).toOption.bind
      Slave.target = some (ascii "/home/me/my") := by decide +kernel
  rw [hs] at hcut
  rw [Except.toOption, Option.bind_some, htarget] at hcut
  exact absurd hcut (by decide +kernel)

end Delivery

end ParallelGdb.Startup
