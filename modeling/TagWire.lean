import TagWire.Main
import TagWire.Proofs.Decoding.OlderUpdates
import TagWire.Proofs.Decoding.PassThrough
import TagWire.Proofs.Decoding.Reordering
import TagWire.Proofs.Decoding.Repacking
import TagWire.Proofs.Decoding.ThereAndBack
import TagWire.Proofs.Decoding.Truncation
import TagWire.Proofs.Encoding.Checking
import TagWire.Proofs.Encoding.TagOrder
import TagWire.Proofs.Records.ForeignMerging
import TagWire.Proofs.Records.Monoid
import TagWire.Proofs.Records.Reports
import TagWire.Proofs.Records.Runs
import TagWire.Record.Document
import TagWire.Record.Equality
import TagWire.Record.Hop
import TagWire.Record.Listing
import TagWire.Proofs.Decoding.RecursionLimit
import TagWire.Proofs.Schemas.Closure
import TagWire.Proofs.Decoding.Resolution
import TagWire.Proofs.Records.Lookups
import TagWire.Proofs.Records.Completeness
import TagWire.Proofs.Store.Media
import TagWire.Proofs.Store.Runs
import TagWire.Proofs.AddressBook.Interviews
import TagWire.Proofs.AddressBook.Books
import TagWire.Proofs.Records.FieldCalls
import TagWire.Proofs.Encoding.Pieces
import TagWire.Proofs.Records.Navigation
import TagWire.Proofs.Cursor.Refusals
import TagWire.Proofs.Records.Discarding
import TagWire.Proofs.Decoding.ErrorPlaces
import TagWire.Proofs.Cursor.Calls
import TagWire.Proofs.Cursor.Varints
import TagWire.Proofs.Decoding.Closing
import TagWire.Proofs.Decoding.Recasting
import TagWire.Proofs.Schemas.Enumerations
import TagWire.Proofs.Schemas.MessageTypes
import TagWire.Proofs.Records.Listings
import TagWire.Proofs.Records.UnknownLogs
import TagWire.Proofs.Wire.Places
