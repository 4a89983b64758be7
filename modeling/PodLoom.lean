import PodLoom.Proofs.Independence
import PodLoom.Proofs.ListsInStep
import PodLoom.Proofs.Navigation
import PodLoom.Proofs.Refusal
import PodLoom.Proofs.SectionLinks
import PodLoom.Proofs.WellFormed
import PodLoom.Proofs.Conservation
import PodLoom.Proofs.Thread.Forest
import PodLoom.Proofs.ListForest
import PodLoom.Proofs.Outcome
import PodLoom.Proofs.SourceBytes
import PodLoom.Proofs.File.Tree
import PodLoom.Proofs.Thread.Seams
import PodLoom.Proofs.FileConversion
import PodLoom.Proofs.Pod.Inline
import PodLoom.Proofs.Pod.Omission
import PodLoom.Proofs.Contents
import PodLoom.Proofs.RawThread
import PodLoom.Proofs.File.Path
import PodLoom.Proofs.File.Frame
import PodLoom.Proofs.Discovery
import PodLoom.Proofs.Batch
import PodLoom.Proofs.Pod.Errata
import PodLoom.Proofs.File.Growth
import PodLoom.Proofs.Isolation
import PodLoom.Proofs.Pod.Partition
import PodLoom.Proofs.NameHeader
import PodLoom.Proofs.HeadingsInLists
import PodLoom.Proofs.Pod.Spacing
import PodLoom.Proofs.Thread.Names
import PodLoom.Proofs.HeadingLinks
import PodLoom.Proofs.Pod.CommandLines
import PodLoom.Proofs.Pod.CodeLines
import PodLoom.Proofs.Pod.Separators
import PodLoom.Proofs.VerbatimBlocks
import PodLoom.Proofs.Thread.Rows
import PodLoom.Proofs.Thread.Anchors
import PodLoom.Proofs.UrlLinks
import PodLoom.Proofs.LinkLabels
import PodLoom.Proofs.Pod.ListKinds
import PodLoom.Proofs.Thread.Escaping
import PodLoom.Proofs.Pod.LinkForms
import PodLoom.Proofs.Search
import PodLoom.Proofs.Invocation
import PodLoom.Proofs.Thread.PlainText
import PodLoom.Proofs.Text.TabStops
import PodLoom.Proofs.Pod.Escapes
import PodLoom.Main
