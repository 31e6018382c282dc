import TreeMerge.Command.Arguments
import TreeMerge.Command.Config
import TreeMerge.Command.Console
import TreeMerge.Command.Disk
import TreeMerge.Command.Merge
import TreeMerge.Command.Notice
import TreeMerge.Command.Parse
import TreeMerge.Command.Program
import TreeMerge.Command.Refusal
import TreeMerge.Command.Step
import TreeMerge.Command.Suggestion
import TreeMerge.Diff.File
import TreeMerge.Diff.LineEnds
import TreeMerge.Diff.Patch
import TreeMerge.Diff.Tool
import TreeMerge.Fault
import TreeMerge.Json.Basic
import TreeMerge.Json.Reader
import TreeMerge.Json.Schema
import TreeMerge.Json.Stray
import TreeMerge.Json.Writer
import TreeMerge.Log
import TreeMerge.Main
import TreeMerge.Matching.BottomUp
import TreeMerge.Matching.CommonSubsequence
import TreeMerge.Matching.Mapping
import TreeMerge.Matching.Matcher
import TreeMerge.Matching.Recovery
import TreeMerge.Matching.TopDown
import TreeMerge.Matching.Twins
import TreeMerge.Merge.Decision
import TreeMerge.Merge.Insertion
import TreeMerge.Merge.Options
import TreeMerge.Merge.Perform
import TreeMerge.Merge.Report
import TreeMerge.Merge.Session
import TreeMerge.Merge.Skeleton
import TreeMerge.Node
import TreeMerge.NodeName
import TreeMerge.Number.Basic
import TreeMerge.Number.Binary64
import TreeMerge.Number.Decimal
import TreeMerge.Number.Sum
import TreeMerge.Render.Dump
import TreeMerge.Render.Fence
import TreeMerge.Render.Format
import TreeMerge.Render.Tokens
import TreeMerge.Reserved
import TreeMerge.Rose
import TreeMerge.Server.Argument
import TreeMerge.Server.Calls
import TreeMerge.Server.Tools
import TreeMerge.Source.Language
import TreeMerge.Source.Parser
import TreeMerge.Source.Provider
import TreeMerge.Source.Versions
import TreeMerge.Table
import TreeMerge.Text.Basic
import TreeMerge.Text.Blank
import TreeMerge.Text.Cut
import TreeMerge.Text.Path
import TreeMerge.Text.Quoted
import TreeMerge.Tree.Basic
import TreeMerge.Tree.Format
import TreeMerge.Unified.Apply
import TreeMerge.Unified.Changes
import TreeMerge.Version
import TreeMerge.Proofs.Json.ReadBack
import TreeMerge.Proofs.Tree.Layout
import TreeMerge.Proofs.Tree.Order
import TreeMerge.Proofs.Tree.Document
import TreeMerge.Proofs.Command.Merge
import TreeMerge.Proofs.Matching.CommonSubsequence
import TreeMerge.Proofs.Matching.Links
import TreeMerge.Proofs.Matching.Soundness
import TreeMerge.Proofs.Matching.Identity
import TreeMerge.Proofs.Matching.Copies
import TreeMerge.Proofs.Matching.Saturation
import TreeMerge.Proofs.Matching.Digests
import TreeMerge.Proofs.Matching.Roots
import TreeMerge.Proofs.Merge.Decision
import TreeMerge.Proofs.Tree.Prune
import TreeMerge.Proofs.Merge.Skeleton
import TreeMerge.Proofs.Merge.Account
import TreeMerge.Proofs.Tree.Relabel
import TreeMerge.Proofs.LeafEdit.Basic
import TreeMerge.Proofs.LeafEdit.TopDown
import TreeMerge.Proofs.LeafEdit.Recovery
import TreeMerge.Proofs.LeafEdit.BottomUp
import TreeMerge.Proofs.Merge.Complete
import TreeMerge.Proofs.LeafEdit.Merge
import TreeMerge.Proofs.Tree.Graft
import TreeMerge.Proofs.Merge.Run
import TreeMerge.Proofs.Merge.Topmost
import TreeMerge.Proofs.Merge.Unchanged
import TreeMerge.Proofs.Merge.Append
import TreeMerge.Proofs.Merge.Represented
import TreeMerge.Proofs.Merge.Exchange
import TreeMerge.Proofs.Merge.OneSided
import TreeMerge.Proofs.Merge.Duplicates
import TreeMerge.Proofs.Merge.Convergent
import TreeMerge.Proofs.Merge.Policies
import TreeMerge.Proofs.Command.FrontEnds
import TreeMerge.Proofs.Merge.Deduplicated
import TreeMerge.Proofs.Merge.Anchors
import TreeMerge.Proofs.Matching.LengthTable
import TreeMerge.Proofs.Tree.Normal
import TreeMerge.Proofs.Tree.Arena
import TreeMerge.Proofs.Tree.Listed
import TreeMerge.Proofs.Merge.Arrivals
import TreeMerge.Proofs.Merge.Accounted
import TreeMerge.Proofs.Merge.Pairing
import TreeMerge.Proofs.Command.Effects
import TreeMerge.Proofs.Render.Tokens
import TreeMerge.Proofs.Json.Grammar
import TreeMerge.Proofs.Json.Settled
import TreeMerge.Proofs.Json.Acceptance
import TreeMerge.Proofs.Tree.Reading
import TreeMerge.Proofs.Render.Dump
import TreeMerge.Proofs.Diff.LineEnds
import TreeMerge.Proofs.Render.Fence
import TreeMerge.Proofs.Matching.Candidates
