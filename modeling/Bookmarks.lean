import Bookmarks.Settings
import Bookmarks.Text.TextString
import Bookmarks.Destination.Record
import Bookmarks.Pdf.Defect
import Bookmarks.Walk
import Bookmarks.Contents.Listing
import Bookmarks.Contents.Record
import Bookmarks.Walk.Termination
import Bookmarks.Reading
import Bookmarks.Outline.LinkedDraft
import Bookmarks.Outline.Table
import Bookmarks.Pdf.OutlineItems
import Bookmarks.Pdf.File
import Bookmarks.Main
import Bookmarks.Proofs.Contents.Numbering
import Bookmarks.Proofs.Contents.Projection
import Bookmarks.Proofs.Contents.Trimming
import Bookmarks.Proofs.Pdf.Description
import Bookmarks.Proofs.Walk.Complete
import Bookmarks.Proofs.Walk.Spans
import Bookmarks.Proofs.Walk.WellFormed
import Bookmarks.Proofs.Walk.Cuts
import Bookmarks.Proofs.Walk.Tolerance
import Bookmarks.Proofs.Walk.Depth
import Bookmarks.Proofs.Pdf.Readable
import Bookmarks.Proofs.Outline.Calls
import Bookmarks.Proofs.Outline.Plan
import Bookmarks.Proofs.Outline.Order
import Bookmarks.Proofs.Walk.Steps
import Bookmarks.Proofs.Walk.Descents
import Bookmarks.Proofs.Walk.Renaming
import Bookmarks.Proofs.Contents.Nested
import Bookmarks.Proofs.Contents.Flat
import Bookmarks.Proofs.Command.Run
import Bookmarks.Proofs.Contents.Listing
import Bookmarks.Proofs.Contents.Leads
import Bookmarks.Proofs.Pdf.NameTree
import Bookmarks.Proofs.Pdf.Hops
import Bookmarks.Proofs.Text.TextString
import Bookmarks.Proofs.Contents.Layers
import Bookmarks.Proofs.Contents.Ancestry
import Bookmarks.Proofs.Walk.LastChild
import Bookmarks.Proofs.Outline.PageNumbers
import Bookmarks.Proofs.Outline.History
import Bookmarks.Proofs.Destination.Record
