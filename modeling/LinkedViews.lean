import LinkedViews.Json.Reader
import LinkedViews.Json.Writer
import LinkedViews.Disk
import LinkedViews.Host.Windowless
import LinkedViews.Desk.Delivery
import LinkedViews.Session.Invalidation
import LinkedViews.Message
import LinkedViews.Symbols
import LinkedViews.Proofs.Session.Coherence
import LinkedViews.Proofs.Host.Memory
import LinkedViews.Proofs.Host.Shown
import LinkedViews.Proofs.Host.Sight
import LinkedViews.Proofs.Host.Coherence
import LinkedViews.Proofs.Desk.Delivery
import LinkedViews.Proofs.Desk.Termination
import LinkedViews.Proofs.Desk.Forward
import LinkedViews.Proofs.Source
import LinkedViews.Proofs.Desk.Accounting
import LinkedViews.Proofs.Desk.Runs
import LinkedViews.Proofs.Host.Built
import LinkedViews.Proofs.Desk.Outcome
import LinkedViews.Proofs.Desk.Queue
import LinkedViews.Proofs.Desk.Watch
import LinkedViews.Proofs.Desk.Saving
import LinkedViews.Proofs.Desk.Backward
import LinkedViews.Proofs.Desk.Closing
import LinkedViews.Proofs.Product
import LinkedViews.Proofs.Session.Identity
import LinkedViews.Proofs.Session.Dropping
import LinkedViews.Proofs.Desk.Belonging
import LinkedViews.Proofs.Session.Streaming
import LinkedViews.Proofs.Session.Interchange
import LinkedViews.Proofs.Desk.Rendering
import LinkedViews.Proofs.Desk.Panels
import LinkedViews.Proofs.Decode.Grammar
import LinkedViews.Proofs.Decode.RoundTrip
import LinkedViews.Proofs.Session.Messages
import LinkedViews.Proofs.Settings
import LinkedViews.Proofs.Desk.Faithful
import LinkedViews.Proofs.Desk.Focus
import LinkedViews.Proofs.Desk.SourceEditor
import LinkedViews.Proofs.Document.Positions
import LinkedViews.Proofs.Linking.Tables
import LinkedViews.Proofs.Linking.Carried
import LinkedViews.Proofs.Session.PlainPaths
import LinkedViews.Proofs.Tree.Shape
import LinkedViews.Proofs.Tree.Extension
import LinkedViews.Proofs.Session.Opening
import LinkedViews.Proofs.Desk.Titles
import LinkedViews.Proofs.Desk.Dropped
import LinkedViews.Proofs.Choices
import LinkedViews.Proofs.Desk.Reuse
import LinkedViews.Proofs.Desk.Columns
import LinkedViews.Proofs.Tree.Siblings
