import TinyhackSsh.Lib.ShellWords
import TinyhackSsh.Proofs.Launch

/-! The `ProxyCommand` for cloudflared, on its way through ssh and the shell: ssh expands the
percent tokens, the shell takes the quotes away, and cloudflared gets the path and the host
as they are, and the destination trimmed. -/

namespace Tinyhack.Launch

open ShellWords
open Profiles (ConnectionProfile)

/-- The percent tokens of OpenSSH, as far as they do not depend on the connection. -/
def expandPercent : JString → Option JString
  | [] => some []
  | '%' :: '%' :: cs => (expandPercent cs).map ('%' :: ·)
  | c :: cs => if c = '%' then none else (expandPercent cs).map (c :: ·)

/-- The command for any three strings; a blank destination is none. -/
def proxyText (path host dest : JString) : JString :=
  shellQuoteForProxy path ++ " access ssh --hostname ".toList ++ shellQuoteForProxy host ++
    (if (trim dest).isEmpty then [] else " --destination ".toList ++ shellQuoteForProxy (trim dest))

def cloudflaredPath (app : App) : JString :=
  let cfNative := fileIn app.nativeLibraryDir "libcloudflared.so".toList
  if app.fileExists cfNative then absolutePath cfNative
  else absolutePath (fileIn app.filesDir "usr/bin/cloudflared".toList)

section Percent

theorem expandPercent_cons {c : Char} (hc : c ≠ '%') (cs : JString) :
    expandPercent (c :: cs) = (expandPercent cs).map (c :: ·) := by
  rw [expandPercent, if_neg hc]
  rintro - rfl -
  exact hc rfl

theorem expandPercent_append {text : JString} (h : '%' ∉ text) (rest : JString) :
    expandPercent (text ++ rest) = (expandPercent rest).map (text ++ ·) := by
  induction text with
  | nil => simp
  | cons c text ih =>
    rw [List.mem_cons, not_or] at h
    rw [List.cons_append, expandPercent_cons (Ne.symm h.1), ih h.2, Option.map_map]
    rfl

/-- One character within the quotes. -/
def quoteChar (c : Char) : JString := if c = '\'' then "'\"'\"'".toList else [c]

theorem percent_notMem_quoteChar {c : Char} (hc : c ≠ '%') : '%' ∉ quoteChar c := by
  unfold quoteChar
  split_ifs
  · decide
  · simpa using hc.symm

/-- Doubled percent signs survive the quoting and are halved again. -/
theorem expandPercent_body (value rest : JString) :
    expandPercent ((value.flatMap fun c => if c = '%' then "%%".toList else [c]).flatMap quoteChar ++ rest) =
      (expandPercent rest).map (value.flatMap quoteChar ++ ·) := by
  induction value with
  | nil => simp
  | cons c value ih =>
    rw [List.flatMap_cons, List.flatMap_append, List.append_assoc, List.flatMap_cons]
    by_cases hc : c = '%'
    · subst hc
      change expandPercent ('%' :: '%' :: ((value.flatMap _).flatMap quoteChar ++ rest)) = _
      rw [expandPercent, ih, Option.map_map]
      rfl
    · rw [if_neg hc, List.flatMap_singleton, expandPercent_append (percent_notMem_quoteChar hc), ih, Option.map_map]
      simp [Function.comp_def]

theorem expandPercent_quoted (value rest : JString) :
    expandPercent (shellQuoteForProxy value ++ rest) = (expandPercent rest).map (shellQuote value ++ ·) := by
  have hquote : ∀ text : JString, shellQuote text = '\'' :: (text.flatMap quoteChar ++ ['\'']) := fun _ => rfl
  rw [shellQuoteForProxy, hquote, hquote, List.cons_append, List.append_assoc,
    expandPercent_cons (by decide), expandPercent_body, List.singleton_append, expandPercent_cons (by decide)]
  simp [Option.map_map, Function.comp_def]

theorem expandPercent_proxyText (path host dest : JString) :
    expandPercent (proxyText path host dest) =
      some (shellQuote path ++ (" access ssh --hostname ".toList ++ (shellQuote host ++
        if (trim dest).isEmpty then [] else " --destination ".toList ++ shellQuote (trim dest)))) := by
  have hdest : ∀ dest : JString,
      expandPercent (if dest.isEmpty then [] else " --destination ".toList ++ shellQuoteForProxy dest) =
        some (if dest.isEmpty then [] else " --destination ".toList ++ shellQuote dest) := by
    intro dest
    split_ifs
    · rfl
    · have hquoted := expandPercent_quoted dest []
      rw [List.append_nil] at hquoted
      rw [expandPercent_append (by decide), hquoted]
      simp [expandPercent]
  rw [proxyText, List.append_assoc, List.append_assoc, expandPercent_quoted, expandPercent_append (by decide),
    expandPercent_quoted, hdest]
  rfl

end Percent

section Shell

/-- The shell reads a quoted string back, as one word or as the end of one. -/
theorem scan_shellQuote (ws : List JString) (word : Option JString) (value : JString) :
    scan ⟨ws, word, .plain⟩ (shellQuote value) = some ⟨ws, some (word.getD [] ++ value), .plain⟩ := by
  have hpiece : ∀ w c, scan ⟨ws, some w, .single⟩ (quoteChar c) = some ⟨ws, some (w ++ [c]), .single⟩ := by
    intro w c
    unfold quoteChar
    split_ifs with hc
    · subst hc
      rfl
    · simp [scan, step, hc, State.push]
  have hquote : shellQuote value = ['\''] ++ (value.flatMap quoteChar ++ ['\'']) := rfl
  rw [hquote, scan_append]
  change (scan ⟨ws, some (word.getD []), .single⟩ _) = _
  rw [scan_append, scan_pieces hpiece]
  rfl

theorem scan_access (ws : List JString) (w : JString) :
    scan ⟨ws, some w, .plain⟩ " access ssh --hostname ".toList =
      some ⟨ws ++ [w] ++ ["access".toList] ++ ["ssh".toList] ++ ["--hostname".toList], none, .plain⟩ := rfl

theorem scan_destination (ws : List JString) (w : JString) :
    scan ⟨ws, some w, .plain⟩ " --destination ".toList =
      some ⟨ws ++ [w] ++ ["--destination".toList], none, .plain⟩ := rfl

end Shell

/-- ssh and the shell make the intended words of the command, whatever the three strings are. -/
theorem proxyCommand_words :
    (∀ path host dest : JString, (expandPercent (proxyText path host dest)).bind words =
      some ([path, "access".toList, "ssh".toList, "--hostname".toList, host] ++
        if (trim dest).isEmpty then [] else ["--destination".toList, trim dest])) ∧
    ∀ (app : App) (profile : ConnectionProfile), proxyCommand app profile =
      proxyText (cloudflaredPath app) (cloudflaredHost profile) (profile.cloudflaredDestination.getD []) := by
  refine ⟨fun path host dest => ?_, fun _ _ => rfl⟩
  rw [expandPercent_proxyText, Option.bind_some, words, scan_append, scan_shellQuote, Option.bind_some, scan_append,
    scan_access, Option.bind_some, scan_append, scan_shellQuote, Option.bind_some]
  split_ifs
  · rfl
  · rw [scan_append, scan_destination, Option.bind_some, scan_shellQuote]
    rfl

/-- A blank before the destination is not passed on. -/
theorem proxyCommand_trims :
    (expandPercent (proxyCommand sampleApp
      { sampleProfile "me" with cloudflaredDestination := some " h:22".toList })).bind words =
    some ["/files/usr/bin/cloudflared".toList, "access".toList, "ssh".toList, "--hostname".toList, "example".toList,
      "--destination".toList, "h:22".toList] := by decide

end Tinyhack.Launch
